import DocCoverage.CommandLine.Arguments
import DocCoverage.CommandLine.Command
import DocCoverage.CommandLine.Run
import DocCoverage.CommandLine.Surroundings
import DocCoverage.Decimal.Binary
import DocCoverage.Decimal.Layout
import DocCoverage.Decimal.Reading
import DocCoverage.Decimal.Shortest
import DocCoverage.Document.Features
import DocCoverage.Document.Heading
import DocCoverage.Document.Json
import DocCoverage.Document.Meaningful
import DocCoverage.Document.Quality
import DocCoverage.FileSystem.Basic
import DocCoverage.FileSystem.Listing
import DocCoverage.FileSystem.Snapshot
import DocCoverage.FileSystem.Writing
import DocCoverage.Glob.Basic
import DocCoverage.Glob.Expansion
import DocCoverage.Glob.Name
import DocCoverage.Json.Basic
import DocCoverage.Json.Merge
import DocCoverage.Json.Number
import DocCoverage.Json.Printer
import DocCoverage.Json.Reader
import DocCoverage.Json.Typed
import DocCoverage.Main
import DocCoverage.Measure
import DocCoverage.Path
import DocCoverage.Pattern.Basic
import DocCoverage.Pattern.Declaration
import DocCoverage.Pattern.Meaning
import DocCoverage.Pattern.Scan
import DocCoverage.Pattern.Search
import DocCoverage.Project.Basic
import DocCoverage.Project.Changes
import DocCoverage.Project.Check
import DocCoverage.Project.CodeFile
import DocCoverage.Project.Coverage
import DocCoverage.Project.Json
import DocCoverage.Proofs.Binary64.Arithmetic
import DocCoverage.Proofs.Binary64.Decoding
import DocCoverage.Proofs.Binary64.Encoding
import DocCoverage.Proofs.Binary64.Error
import DocCoverage.Proofs.Binary64.Order
import DocCoverage.Proofs.Binary64.Rounding
import DocCoverage.Proofs.Binary64.Values
import DocCoverage.Proofs.CommandLine.Display
import DocCoverage.Proofs.CommandLine.Floors
import DocCoverage.Proofs.CommandLine.Overrides
import DocCoverage.Proofs.CommandLine.Verdict
import DocCoverage.Proofs.Document.Asked
import DocCoverage.Proofs.Document.Grade
import DocCoverage.Proofs.Document.Heading
import DocCoverage.Proofs.Document.Meaningful
import DocCoverage.Proofs.Document.Placeholders
import DocCoverage.Proofs.Document.Returns
import DocCoverage.Proofs.Document.Score
import DocCoverage.Proofs.Document.Sections
import DocCoverage.Proofs.Document.Weights
import DocCoverage.Proofs.FileSystem.Along
import DocCoverage.Proofs.FileSystem.Below
import DocCoverage.Proofs.FileSystem.Contents
import DocCoverage.Proofs.FileSystem.Directory
import DocCoverage.Proofs.FileSystem.Limits
import DocCoverage.Proofs.FileSystem.Listing
import DocCoverage.Proofs.FileSystem.Making
import DocCoverage.Proofs.FileSystem.Plain
import DocCoverage.Proofs.FileSystem.Walking
import DocCoverage.Proofs.FileSystem.Writing
import DocCoverage.Proofs.Glob.Meaning
import DocCoverage.Proofs.Glob.Name
import DocCoverage.Proofs.Glob.OnWay
import DocCoverage.Proofs.Glob.Trails
import DocCoverage.Proofs.Json.Depth
import DocCoverage.Proofs.Json.Dotted
import DocCoverage.Proofs.Json.Entry
import DocCoverage.Proofs.Json.Layers
import DocCoverage.Proofs.Json.Numbers
import DocCoverage.Proofs.Json.Ordered
import DocCoverage.Proofs.Json.Overlay
import DocCoverage.Proofs.Json.Quoted
import DocCoverage.Proofs.Json.Reading
import DocCoverage.Proofs.Json.Roundtrip
import DocCoverage.Proofs.Path.Firsts
import DocCoverage.Proofs.Path.Name
import DocCoverage.Proofs.Path.Order
import DocCoverage.Proofs.Path.Segments
import DocCoverage.Proofs.Pattern.Breaks
import DocCoverage.Proofs.Pattern.Context
import DocCoverage.Proofs.Pattern.Declared
import DocCoverage.Proofs.Pattern.Describes
import DocCoverage.Proofs.Pattern.Growth
import DocCoverage.Proofs.Pattern.Joined
import DocCoverage.Proofs.Pattern.Matches
import DocCoverage.Proofs.Pattern.Parts
import DocCoverage.Proofs.Pattern.Returns
import DocCoverage.Proofs.Pattern.Stances
import DocCoverage.Proofs.Pattern.Wall
import DocCoverage.Proofs.Project.Accounts
import DocCoverage.Proofs.Project.Advice
import DocCoverage.Proofs.Project.Candidates
import DocCoverage.Proofs.Project.Changes
import DocCoverage.Proofs.Project.Confinement
import DocCoverage.Proofs.Project.Creation
import DocCoverage.Proofs.Project.Discovery
import DocCoverage.Proofs.Project.Floor
import DocCoverage.Proofs.Project.Growth
import DocCoverage.Proofs.Project.Locality
import DocCoverage.Proofs.Project.Relocation
import DocCoverage.Proofs.Project.Returns
import DocCoverage.Proofs.Project.Selection
import DocCoverage.Proofs.Project.Tests
import DocCoverage.Proofs.Project.Verdict
import DocCoverage.Proofs.Report.Colours
import DocCoverage.Proofs.Report.Console
import DocCoverage.Proofs.Report.Gathering
import DocCoverage.Proofs.Report.Grouping
import DocCoverage.Proofs.Report.Json
import DocCoverage.Proofs.Report.Percentage
import DocCoverage.Proofs.Report.Tally
import DocCoverage.Proofs.Report.Threshold
import DocCoverage.Proofs.Settings.Attempt
import DocCoverage.Proofs.Settings.Floors
import DocCoverage.Proofs.Settings.Keys
import DocCoverage.Proofs.Settings.Merging
import DocCoverage.Proofs.Settings.Patch
import DocCoverage.Proofs.Settings.Records
import DocCoverage.Proofs.Settings.Saved
import DocCoverage.Proofs.Source.Complexity
import DocCoverage.Proofs.Source.Functions
import DocCoverage.Proofs.Source.Growth
import DocCoverage.Proofs.Source.Joined
import DocCoverage.Proofs.Source.Returns
import DocCoverage.Proofs.Source.Rules
import DocCoverage.Proofs.Source.Urgency
import DocCoverage.Proofs.Text.Growth
import DocCoverage.Proofs.Text.Lines
import DocCoverage.Proofs.Text.Pieces
import DocCoverage.Proofs.Text.Returns
import DocCoverage.Proofs.Text.Stretches
import DocCoverage.Report.Basic
import DocCoverage.Report.Console
import DocCoverage.Report.Gap
import DocCoverage.Report.Json
import DocCoverage.Report.Tally
import DocCoverage.Settings.Basic
import DocCoverage.Settings.Json
import DocCoverage.Settings.Store
import DocCoverage.Source.Classification
import DocCoverage.Source.Kind
import DocCoverage.Source.Rules
import DocCoverage.Source.Signals
import DocCoverage.Text.Blank
import DocCoverage.Text.Letter
import DocCoverage.Text.Lines
import DocCoverage.Text.Pieces
import DocCoverage.Text.Quoted
import DocCoverage.Text.Search
import DocCoverage.Text.Unprintable
import DocCoverage.Text.Utf8
import DocCoverage.Text.WordChar
