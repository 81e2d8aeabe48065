import ClassWeave.Archive.Checksum
import ClassWeave.Archive.Directory
import ClassWeave.Archive.Entry
import ClassWeave.Archive.Huffman
import ClassWeave.Archive.Inflate
import ClassWeave.Archive.Record
import ClassWeave.Archive.Zip
import ClassWeave.Bytes.Reader
import ClassWeave.Bytes.Writer
import ClassWeave.ClassFile.Attribute
import ClassWeave.ClassFile.Basic
import ClassWeave.ClassFile.StackMap
import ClassWeave.ClassGraph.Basic
import ClassWeave.ClassGraph.ClassPath
import ClassWeave.ClassGraph.Edited
import ClassWeave.ClassGraph.Platform
import ClassWeave.ClassGraph.Source
import ClassWeave.Code.Assembly
import ClassWeave.Code.Body
import ClassWeave.Code.Branch
import ClassWeave.Code.Bytecode
import ClassWeave.Code.Disassembly
import ClassWeave.Code.Instruction
import ClassWeave.Code.Label
import ClassWeave.Code.Layout
import ClassWeave.Code.Mnemonic
import ClassWeave.Code.Offsets
import ClassWeave.Code.Operand
import ClassWeave.Code.Plain
import ClassWeave.CommandLine.Options
import ClassWeave.CommandLine.Run
import ClassWeave.Constant.Basic
import ClassWeave.Constant.Pool
import ClassWeave.Constant.Table
import ClassWeave.Descriptor.Basic
import ClassWeave.Descriptor.Parser
import ClassWeave.Descriptor.Printer
import ClassWeave.Fault
import ClassWeave.Files.Tree
import ClassWeave.Hook.Call
import ClassWeave.Hook.Fields
import ClassWeave.Hook.Initializer
import ClassWeave.Hook.Marshal
import ClassWeave.Hook.Site
import ClassWeave.Hook.Spec
import ClassWeave.Hook.SpecFault
import ClassWeave.Hook.SpecFile
import ClassWeave.Hook.Target
import ClassWeave.Hook.Transformer
import ClassWeave.Hook.Trigger
import ClassWeave.Hook.Weaving
import ClassWeave.Listing.Code
import ClassWeave.Listing.Constant
import ClassWeave.Listing.Frame
import ClassWeave.Listing.Spec
import ClassWeave.Listing.Term
import ClassWeave.Main
import ClassWeave.Name.Basic
import ClassWeave.Name.WellKnown
import ClassWeave.Text.Blank
import ClassWeave.Text.CodePage
import ClassWeave.Text.Hex
import ClassWeave.Text.ModifiedUtf8
import ClassWeave.Text.Quoted
import ClassWeave.Text.Unprintable
import ClassWeave.Text.Uppercase
import ClassWeave.Text.Utf8
import ClassWeave.Typing.Frame
import ClassWeave.Typing.Hierarchy
import ClassWeave.Typing.Inference
import ClassWeave.Typing.Merge
import ClassWeave.Typing.Step
import ClassWeave.Typing.Stored
import ClassWeave.Typing.VerificationType
import ClassWeave.Proofs.Outcome
import ClassWeave.Proofs.Constant.Growth
import ClassWeave.Proofs.Constant.Known
import ClassWeave.Proofs.Code.Growth
import ClassWeave.Proofs.Typing.Order
import ClassWeave.Proofs.Typing.Merging
import ClassWeave.Proofs.Typing.Flow
import ClassWeave.Proofs.Typing.Fixpoint
import ClassWeave.Proofs.Typing.Soundness
import ClassWeave.Proofs.Typing.Steps
import ClassWeave.Proofs.Typing.Checking
import ClassWeave.Proofs.Typing.Assignment
import ClassWeave.Proofs.Typing.Keeping
import ClassWeave.Proofs.Typing.Moving
import ClassWeave.Proofs.Bytes
import ClassWeave.Proofs.Text.ModifiedUtf8
import ClassWeave.Proofs.Constant.RoundTrip
import ClassWeave.Proofs.ClassFile.RoundTrip
import ClassWeave.Proofs.Code.Straight
import ClassWeave.Proofs.Code.Jumps
import ClassWeave.Proofs.Code.Splitting
import ClassWeave.Proofs.Code.Layout
import ClassWeave.Proofs.Code.Spans
import ClassWeave.Proofs.Code.Emission
import ClassWeave.Proofs.Code.Labels
import ClassWeave.Proofs.Code.Assembly
import ClassWeave.Proofs.Code.Entries
import ClassWeave.Proofs.Code.Leaps
import ClassWeave.Proofs.Code.StackMap
import ClassWeave.Proofs.Execution.Machine
import ClassWeave.Proofs.Execution.Reflection
import ClassWeave.Proofs.Hook.Marshaling
import ClassWeave.Proofs.Hook.Detour
import ClassWeave.Proofs.Hook.Invisibility
import ClassWeave.Proofs.Hook.Weaving
import ClassWeave.Proofs.Hook.HookedClass
import ClassWeave.Proofs.Hook.Initialization
import ClassWeave.Proofs.Hook.ReadBack
import ClassWeave.Proofs.Hook.Calling
import ClassWeave.Proofs.Hook.Answers
import ClassWeave.Proofs.Hook.Fitting
import ClassWeave.Proofs.Hook.Threading
import ClassWeave.Proofs.Hook.Replacing
import ClassWeave.Proofs.Descriptor.RoundTrip
import ClassWeave.Proofs.Constant.Operands
import ClassWeave.Proofs.Code.Listing
import ClassWeave.Proofs.Code.Outline
import ClassWeave.Proofs.Code.Spelling
import ClassWeave.Proofs.Code.Relisting
import ClassWeave.Proofs.Code.DebugTables
import ClassWeave.Proofs.Code.RoundTrip
import ClassWeave.Proofs.Hook.Reapplying
import ClassWeave.Proofs.ClassGraph.Search
import ClassWeave.Proofs.ClassGraph.Loading
import ClassWeave.Proofs.ClassGraph.CommonSuperclass
import ClassWeave.Proofs.ClassGraph.Assignability
import ClassWeave.Proofs.Typing.Locals
import ClassWeave.Proofs.Typing.Maximums
import ClassWeave.Proofs.Code.Maximums
import ClassWeave.Proofs.Typing.Listed
import ClassWeave.Proofs.ClassFile.StackMap
import ClassWeave.Proofs.Code.MappedFrames
import ClassWeave.Proofs.Constant.Interning
import ClassWeave.Proofs.ClassGraph.Edited
import ClassWeave.Proofs.Typing.Heights
import ClassWeave.Proofs.Typing.Termination
import ClassWeave.Proofs.Hook.Triggering
import ClassWeave.Proofs.ClassGraph.History
import ClassWeave.Proofs.Code.Coverage
import ClassWeave.Proofs.Code.LabelFaults
import ClassWeave.Proofs.Hook.Labelling
import ClassWeave.Proofs.Execution.Paths
import ClassWeave.Proofs.Typing.Initialized
import ClassWeave.Proofs.Typing.Shifting
import ClassWeave.Proofs.Hook.Declaring
import ClassWeave.Proofs.Hook.Storing
import ClassWeave.Proofs.Hook.Caching
import ClassWeave.Proofs.Hook.HandingOver
import ClassWeave.Proofs.Typing.Joining
import ClassWeave.Proofs.Code.Rounds
import ClassWeave.Proofs.Typing.Slots
import ClassWeave.Proofs.Typing.Whole
import ClassWeave.Proofs.Execution.Linking
import ClassWeave.Proofs.Hook.Linking
import ClassWeave.Proofs.Typing.Exchanges
import ClassWeave.Proofs.Typing.NewObjects
import ClassWeave.Proofs.Execution.Exchanges
import ClassWeave.Proofs.Execution.NewObjects
import ClassWeave.Proofs.Code.Codec
import ClassWeave.Proofs.Code.SwitchKeys
import ClassWeave.Proofs.Constant.Survival
import ClassWeave.Proofs.Descriptor.Exactness
import ClassWeave.Proofs.Text.ShortestForms
import ClassWeave.Proofs.ClassFile.TextForms
import ClassWeave.Proofs.Text.Words
import ClassWeave.Proofs.Hook.SpecText
import ClassWeave.Proofs.Hook.SpecFile
import ClassWeave.Proofs.Hook.BlockFaults
import ClassWeave.Proofs.Hook.SpecMistakes
import ClassWeave.Proofs.Listing.Values
import ClassWeave.Proofs.Listing.Items
