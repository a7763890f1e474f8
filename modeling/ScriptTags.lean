import ScriptTags.Main
import ScriptTags.Proofs.Collecting
import ScriptTags.Proofs.ConfigSchema
import ScriptTags.Proofs.Decoding
import ScriptTags.Proofs.DistinctKeys
import ScriptTags.Proofs.Extraction
import ScriptTags.Proofs.HiddenEntries
import ScriptTags.Proofs.Joining
import ScriptTags.Proofs.JsonReader
import ScriptTags.Proofs.JsonText
import ScriptTags.Proofs.LineEndings
import ScriptTags.Proofs.LineGrammar
import ScriptTags.Proofs.Outcome
import ScriptTags.Proofs.PhysicalLines
import ScriptTags.Proofs.Pieces
import ScriptTags.Proofs.Places
import ScriptTags.Proofs.Readers
import ScriptTags.Proofs.Relocation
import ScriptTags.Proofs.Rerun
import ScriptTags.Proofs.Resolution
import ScriptTags.Proofs.Routing
import ScriptTags.Proofs.Runs
import ScriptTags.Proofs.Scanning
import ScriptTags.Proofs.SearchCommands
import ScriptTags.Proofs.Sorting
import ScriptTags.Proofs.TagLines
import ScriptTags.Proofs.TagOrder
import ScriptTags.Proofs.TagTables
import ScriptTags.Proofs.TagText
import ScriptTags.Proofs.WalkOrder
import ScriptTags.Proofs.Widening
import ScriptTags.Proofs.Workers
import ScriptTags.Proofs.Writing
import ScriptTags.Script.Cursor
import ScriptTags.Proofs.Layouts
import ScriptTags.Proofs.Encoding
import ScriptTags.Proofs.Patterns
import ScriptTags.Proofs.Interpreters
import ScriptTags.Proofs.ArgumentOrder
import ScriptTags.Proofs.CursorMoves
import ScriptTags.Proofs.LineReading
