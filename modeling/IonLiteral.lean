import IonLiteral.Print
import IonLiteral.Proofs.Decoding
import IonLiteral.Proofs.Observation
import IonLiteral.Reader.Ion
import IonLiteral.Reader.Json
import IonLiteral.Reader.Symbol
import IonLiteral.Sink.Recorder
import IonLiteral.Session
import IonLiteral.Proofs.Spelling
import IonLiteral.Proofs.Pieces
import IonLiteral.Proofs.Plan
import IonLiteral.Proofs.Scripts
import IonLiteral.Proofs.Adapters
import IonLiteral.Proofs.Encodings
import IonLiteral.Proofs.InUnits
import IonLiteral.Proofs.Batching
import IonLiteral.Proofs.Reading
import IonLiteral.Proofs.Strings
import IonLiteral.Proofs.Json
import IonLiteral.Proofs.Kinds
import IonLiteral.Proofs.Symbols
import IonLiteral.Proofs.Sessions
import IonLiteral.Proofs.Bounded
import IonLiteral.Proofs.Contract
import IonLiteral.Proofs.IllFormed
import IonLiteral.Proofs.Clobs
import IonLiteral.Proofs.Operators
import IonLiteral.Proofs.Grammar
import IonLiteral.Proofs.Blocks
import IonLiteral.Proofs.BareSymbols
import IonLiteral.Proofs.BoundedStrings
import IonLiteral.Proofs.Concatenation
import IonLiteral.Proofs.WidenedBytes
import IonLiteral.Proofs.Charsets
import IonLiteral.Proofs.Checks
import IonLiteral.Proofs.Loops
import IonLiteral.Proofs.Runs
import IonLiteral.Proofs.CheckedBodies
import IonLiteral.Proofs.Safety
import IonLiteral.Proofs.Cursors
import IonLiteral.Proofs.Numerals
