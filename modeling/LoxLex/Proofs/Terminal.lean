import LoxLex.Text.Style

/-! What a terminal shows of text with escape sequences: characters, each in the style selected before
it. A sequence is one attribute; any other sequence is not understood. -/

namespace LoxLex.Text

structure Style where
  bold : Bool := false
  /-- None is the terminal's own colour. -/
  colour : Option Colour := none
  deriving DecidableEq

def Colour.ofCode? : Nat → Option Colour
  | 31 => some .red
  | 32 => some .green
  | 33 => some .yellow
  | 34 => some .blue
  | 36 => some .cyan
  | 90 => some .brightBlack
  | 92 => some .brightGreen
  | 94 => some .brightBlue
  | 96 => some .brightCyan
  | _ => none

/-- The style behind an attribute. -/
def Style.select? (style : Style) : Nat → Option Style
  | 0 => some {}
  | 1 => some { style with bold := true }
  | 39 => some { style with colour := none }
  | code => (Colour.ofCode? code).map fun colour => { style with colour := some colour }

/-- What a terminal is about to read: text, the bracket of a sequence, or the rest of an attribute. -/
inductive Terminal.Mode
  | text
  | bracket
  | attribute (code : Nat)
  deriving DecidableEq

structure Terminal where
  mode : Terminal.Mode := .text
  style : Style := {}
  shown : List (Char × Style) := []
  deriving DecidableEq

namespace Terminal

def escape : Char := '\x1b'

def read? (terminal : Terminal) (char : Char) : Option Terminal :=
  match terminal.mode with
  | .text =>
    if char = escape then some { terminal with mode := .bracket }
    else some { terminal with shown := terminal.shown ++ [(char, terminal.style)] }
  | .bracket => if char = '[' then some { terminal with mode := .attribute 0 } else none
  | .attribute code =>
    if char.isDigit then
      some { terminal with mode := .attribute (10 * code + (char.toNat - '0'.toNat)) }
    else if char = 'm' then
      (terminal.style.select? code).map fun style => { terminal with mode := .text, style }
    else none

def display? (text : String) : Option Terminal := text.toList.foldlM read? {}

end Terminal

/-- From a style on, a text shows some characters and ends outside sequences in another style. -/
def Shows (style : Style) (text : List Char) (shown : List (Char × Style)) (after : Style) : Prop :=
  ∀ before, text.foldlM Terminal.read? ⟨.text, style, before⟩ = some ⟨.text, after, before ++ shown⟩

namespace Shows

variable {style middle after : Style}

theorem nil (style : Style) : Shows style [] [] style := by
  intro before
  simp

theorem append {text rest : List Char} {shown more : List (Char × Style)}
    (first : Shows style text shown middle) (second : Shows middle rest more after) :
    Shows style (text ++ rest) (shown ++ more) after := by
  intro before
  rw [List.foldlM_append, first before, ← List.append_assoc]
  exact second (before ++ shown)

/-- Text without escape characters is shown as it is. -/
theorem plain {text : List Char} (absent : Terminal.escape ∉ text) (style : Style) :
    Shows style text (text.map (·, style)) style := by
  induction text with
  | nil => exact nil style
  | cons char rest ih =>
    rw [List.mem_cons, not_or] at absent
    have first : Shows style [char] [(char, style)] style := by
      intro before
      simp [Terminal.read?, Ne.symm absent.1]
    exact first.append (ih absent.2)

private theorem foldlM_read?_digits {digits : List Char} (all : ∀ char ∈ digits, char.isDigit) (code : Nat)
    (style : Style) (before : List (Char × Style)) :
    digits.foldlM Terminal.read? ⟨.attribute code, style, before⟩ =
      some ⟨.attribute (Nat.ofDigitChars 10 digits code), style, before⟩ := by
  induction digits generalizing code with
  | nil => rfl
  | cons digit rest ih =>
    obtain ⟨here, later⟩ := List.forall_mem_cons.mp all
    simp only [List.foldlM_cons, Terminal.read?, here]
    exact ih later _

private theorem select {code : Nat} (selected : style.select? code = some after) :
    Shows style (select code).toList [] after := by
  intro before
  have digits : ∀ char ∈ Nat.toDigits 10 code, char.isDigit :=
    fun _ member => Nat.isDigit_of_mem_toDigits (by decide) (by decide) member
  have spelled : (Text.select code).toList = Terminal.escape :: '[' :: (Nat.toDigits 10 code ++ ['m']) := by
    rw [Text.select, String.toList_append, String.toList_append]
    exact congrArg (['\x1b', '['] ++ · ++ ['m']) Nat.toList_repr
  have closed : Terminal.read? ⟨.attribute code, style, before⟩ 'm' = some ⟨.text, after, before⟩ :=
    congrArg (Option.map fun style => (⟨.text, style, before⟩ : Terminal)) selected
  calc (Text.select code).toList.foldlM Terminal.read? ⟨.text, style, before⟩
    _ = (Nat.toDigits 10 code ++ ['m']).foldlM Terminal.read? ⟨.attribute 0, style, before⟩ := by
      rw [spelled]
      rfl
    _ = ['m'].foldlM Terminal.read? ⟨.attribute code, style, before⟩ := by
      rw [List.foldlM_append, foldlM_read?_digits digits, Nat.ofDigitChars_ten_toDigits]
      rfl
    _ = some ⟨.text, after, before ++ []⟩ := by simp [closed]

private theorem select_colour (style : Style) (colour : Colour) :
    style.select? colour.code = some { style with colour := some colour } := by
  cases colour <;> rfl

/-- A colour ends with the text that is painted in it. -/
theorem paint {text : String} (absent : Terminal.escape ∉ text.toList) (colour : Colour) {style : Style}
    (uncoloured : style.colour = none) :
    Shows style (colour.paint text).toList (text.toList.map (·, { style with colour := some colour })) style := by
  have opened : Shows style (Text.select colour.code).toList [] { style with colour := some colour } :=
    select (select_colour style colour)
  have closed : Shows { style with colour := some colour } (Text.select 39).toList [] style := by
    cases style
    cases uncoloured
    exact select rfl
  have painted := (opened.append (plain absent _)).append closed
  simpa [Colour.paint] using painted

theorem bold {text : String} {shown : List (Char × Style)}
    (inner : Shows { bold := true } text.toList shown { bold := true }) :
    Shows {} (Text.bold text).toList shown {} := by
  have opened : Shows {} (Text.select 1).toList [] { bold := true } := select rfl
  have closed : Shows { bold := true } (Text.select 0).toList [] {} := select rfl
  simpa [Text.bold] using (opened.append inner).append closed

theorem display? {text : String} {shown : List (Char × Style)} (shows : Shows {} text.toList shown {}) :
    Terminal.display? text = some ⟨.text, {}, shown⟩ := shows []

end Shows

end LoxLex.Text
