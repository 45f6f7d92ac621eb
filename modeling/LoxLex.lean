import LoxLex.Command.Run
import LoxLex.Main
import LoxLex.Prompt.Editor
import LoxLex.Prompt.Bytewise
import LoxLex.Scan.Bytewise
import LoxLex.Scan.Wrapping
import LoxLex.Proofs.Joining
import LoxLex.Proofs.LongestMatch
import LoxLex.Proofs.Printing
import LoxLex.Proofs.Splice
import LoxLex.Proofs.Tiling
import LoxLex.Proofs.Lookahead
import LoxLex.Proofs.Encoding
import LoxLex.Proofs.Lines
import LoxLex.Proofs.Recovery
import LoxLex.Proofs.Blanking
import LoxLex.Proofs.Reading
import LoxLex.Proofs.Walking
import LoxLex.Proofs.WrappedLines
import LoxLex.Proofs.Advancing
import LoxLex.Proofs.Ending
import LoxLex.Proofs.Opacity
import LoxLex.Proofs.LineEndings
import LoxLex.Proofs.Rounding
import LoxLex.Proofs.Numerals
import LoxLex.Proofs.JsonGrammar
import LoxLex.Proofs.JsonReading
import LoxLex.Proofs.JsonTokens
import LoxLex.Proofs.Listing
import LoxLex.Proofs.Terminal
import LoxLex.Proofs.Highlighting
import LoxLex.Proofs.CommandLine
import LoxLex.Proofs.Typing
import LoxLex.Proofs.Dialogue
import LoxLex.Proofs.Restarting
import LoxLex.Proofs.Magnitudes
import LoxLex.Proofs.Nearest
import LoxLex.Proofs.CorrectRounding
import LoxLex.Proofs.NumberLiterals
import LoxLex.Proofs.Decimals
import LoxLex.Proofs.DecimalGrids
import LoxLex.Proofs.ShortestDigits
import LoxLex.Proofs.NumberForms
import LoxLex.Proofs.NumberTexts
import LoxLex.Proofs.Regions
import LoxLex.Proofs.OpenStrings
import LoxLex.Proofs.Completing
import LoxLex.Proofs.Hinting
import LoxLex.Proofs.Logging
import LoxLex.Proofs.CursorCalls
