import Sectioning.Command.Keyword
import Sectioning.Command.Occurrence
import Sectioning.Error
import Sectioning.Files.Disk
import Sectioning.Files.Path
import Sectioning.Files.Record
import Sectioning.Files.Tree
import Sectioning.Glyph.BreakClass
import Sectioning.Glyph.Cluster
import Sectioning.Glyph.Emoji
import Sectioning.Glyph.Intervals
import Sectioning.Glyph.Width
import Sectioning.Heading.Basic
import Sectioning.Heading.Entry
import Sectioning.Heading.Title
import Sectioning.Inclusion.Expansion
import Sectioning.Inclusion.Library
import Sectioning.Inclusion.Project
import Sectioning.Inclusion.Search
import Sectioning.Main
import Sectioning.Outline.Drawing
import Sectioning.Outline.Forest
import Sectioning.Outline.Json
import Sectioning.Program.Arguments
import Sectioning.Program.CursorArgument
import Sectioning.Program.Run
import Sectioning.Program.Session
import Sectioning.Program.Terminal
import Sectioning.Proofs.Anchors
import Sectioning.Proofs.Attempts
import Sectioning.Proofs.Blanks
import Sectioning.Proofs.Bytes
import Sectioning.Proofs.Comments
import Sectioning.Proofs.Cursors
import Sectioning.Proofs.Dependencies
import Sectioning.Proofs.Endings
import Sectioning.Proofs.Entries
import Sectioning.Proofs.Expansion
import Sectioning.Proofs.Exposure
import Sectioning.Proofs.Fills
import Sectioning.Proofs.Forms
import Sectioning.Proofs.Gathering
import Sectioning.Proofs.LooseForms
import Sectioning.Proofs.Manuscript
import Sectioning.Proofs.Marks
import Sectioning.Proofs.Places
import Sectioning.Proofs.Printed
import Sectioning.Proofs.Reachability
import Sectioning.Proofs.RoundTrip
import Sectioning.Proofs.Shelf
import Sectioning.Proofs.StrayFills
import Sectioning.Proofs.Strays
import Sectioning.Proofs.Titles
import Sectioning.Settings.Basic
import Sectioning.Settings.Toml.Document
import Sectioning.Settings.Toml.Scalar
import Sectioning.Settings.Toml.Text
import Sectioning.Settings.Toml.Value
import Sectioning.Text.Blank
import Sectioning.Text.Buffer
import Sectioning.Text.Cursor
import Sectioning.Text.Octet
import Sectioning.Text.Position
import Sectioning.Update.Frequency
import Sectioning.Update.Schedule
import Sectioning.Update.Watch
import Sectioning.View.Cell
import Sectioning.View.Folds
import Sectioning.View.Key
import Sectioning.View.Screen
import Sectioning.View.State
import Sectioning.Proofs.Headings
import Sectioning.Proofs.Ancestry
import Sectioning.Proofs.Lookup
import Sectioning.Proofs.Navigation
import Sectioning.Proofs.Rescan
import Sectioning.Proofs.Debouncing
import Sectioning.Proofs.Agreement
import Sectioning.Proofs.Segments
import Sectioning.Proofs.Trees
import Sectioning.Proofs.Spelling
import Sectioning.Proofs.Coverage
import Sectioning.Proofs.LostUpdates
import Sectioning.Proofs.Postponement
import Sectioning.Proofs.CommandForms
import Sectioning.Proofs.Groups
import Sectioning.Proofs.Arguments
import Sectioning.Proofs.Drift
import Sectioning.Proofs.ShortTitles
import Sectioning.Proofs.Patterns
import Sectioning.Proofs.Matches
import Sectioning.Proofs.PercentEndings
import Sectioning.Proofs.Kinship
import Sectioning.Proofs.Lineages
import Sectioning.Proofs.Walks
import Sectioning.Proofs.Lines
import Sectioning.Proofs.Settling
import Sectioning.Proofs.Streams
import Sectioning.Proofs.Closers
import Sectioning.Proofs.Parity
import Sectioning.Proofs.Locality
import Sectioning.Proofs.Prose
import Sectioning.Proofs.Erasure
import Sectioning.Proofs.LineIndex
import Sectioning.Proofs.Locations
import Sectioning.Proofs.Preference
import Sectioning.Proofs.Loading
import Sectioning.Proofs.Rounds
import Sectioning.Proofs.Progress
