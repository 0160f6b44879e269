import LogicTest.Main
import LogicTest.Proofs.Grammar.Concatenation
import LogicTest.Proofs.Grammar.Filtering
import LogicTest.Proofs.Printing.RoundTrip
import LogicTest.Proofs.Grammar.Course
import LogicTest.Proofs.Grammar.Faults
import LogicTest.Proofs.Grammar.Extent
import LogicTest.Proofs.Grammar.SourceLines
import LogicTest.Proofs.Grammar.Comments
import LogicTest.Proofs.Source
import LogicTest.Proofs.Grammar.Segments
import LogicTest.Proofs.Grammar.QueryLines
import LogicTest.Proofs.Printing.Printable
import LogicTest.Proofs.Grammar.Messages
import LogicTest.Proofs.Grammar.Consumption
import LogicTest.Proofs.CommandLine.StandardInput
import LogicTest.Proofs.Cursor.Stream
import LogicTest.Proofs.Directory.Entries
import LogicTest.Proofs.LineEnds
import LogicTest.Proofs.Directory.Follow
import LogicTest.Proofs.Walk
import LogicTest.Proofs.Batch
import LogicTest.Proofs.CommandLine.Account
import LogicTest.Proofs.CommandLine.Dump
import LogicTest.Proofs.Directory.Found
import LogicTest.Proofs.Directory.Outline
import LogicTest.Proofs.QueryHeader.Defects
import LogicTest.Proofs.Grammar.Conditions
import LogicTest.Proofs.Grammar.Thresholds
import LogicTest.Proofs.Grammar.Gaps
import LogicTest.Proofs.Grammar.Numbers
import LogicTest.Proofs.Cursor.Polls
import LogicTest.Proofs.Turns
import LogicTest.Proofs.Text.Indent
import LogicTest.Proofs.PutBack
import LogicTest.Proofs.CommandLine.Listing
