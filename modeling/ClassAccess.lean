import ClassAccess.Access.Edit
import ClassAccess.Access.Flags
import ClassAccess.Access.Level
import ClassAccess.Bytes.BigEndian
import ClassAccess.Bytes.Blake3
import ClassAccess.Bytes.LittleEndian
import ClassAccess.Bytes.Parser
import ClassAccess.Cache.Blob
import ClassAccess.Cache.Payload
import ClassAccess.Cache.Varint
import ClassAccess.ClassFile.Basic
import ClassAccess.ClassFile.ConstantPool
import ClassAccess.ClassFile.Cursor
import ClassAccess.ClassFile.Descriptor
import ClassAccess.ClassFile.Error
import ClassAccess.ClassFile.Instruction
import ClassAccess.ClassFile.ModifiedUtf8
import ClassAccess.ClassFile.Read
import ClassAccess.ClassFile.Visitor
import ClassAccess.Event.Basic
import ClassAccess.Event.Loading
import ClassAccess.Event.Widening
import ClassAccess.Proofs.Bytes.Patches
import ClassAccess.Proofs.Bytes.Splice
import ClassAccess.Proofs.Cache.Checks
import ClassAccess.Proofs.Cache.Contents
import ClassAccess.Proofs.Cache.Header
import ClassAccess.Proofs.Cache.Layout
import ClassAccess.Proofs.Cache.Restored
import ClassAccess.Proofs.Cache.RoundTrip
import ClassAccess.Proofs.Cache.Writing
import ClassAccess.Proofs.ClassFile.Acceptance
import ClassAccess.Proofs.ClassFile.AttributeLayout
import ClassAccess.Proofs.ClassFile.Boundaries
import ClassAccess.Proofs.ClassFile.Description
import ClassAccess.Proofs.ClassFile.DescriptorGrammar
import ClassAccess.Proofs.ClassFile.DescriptorTexts
import ClassAccess.Proofs.ClassFile.Exact
import ClassAccess.Proofs.ClassFile.InstructionForms
import ClassAccess.Proofs.ClassFile.Layout
import ClassAccess.Proofs.ClassFile.MalformedUtf8
import ClassAccess.Proofs.ClassFile.ModifiedUtf8
import ClassAccess.Proofs.ClassFile.Outline
import ClassAccess.Proofs.ClassFile.PlainUtf8
import ClassAccess.Proofs.ClassFile.PoolDescription
import ClassAccess.Proofs.ClassFile.PoolLayout
import ClassAccess.Proofs.ClassFile.PoolSlots
import ClassAccess.Proofs.ClassFile.References
import ClassAccess.Proofs.ClassFile.Regions
import ClassAccess.Proofs.ClassFile.Rewriting
import ClassAccess.Proofs.ClassFile.Signatures
import ClassAccess.Proofs.ClassFile.Streaming
import ClassAccess.Proofs.ClassFile.Unambiguous
import ClassAccess.Proofs.ClassFile.Visiting
import ClassAccess.Proofs.ClassFile.Walking
import ClassAccess.Proofs.ClassFile.WordArithmetic
import ClassAccess.Proofs.Outcome
import ClassAccess.Proofs.Rule.CanonicalText
import ClassAccess.Proofs.Rule.Grammar
import ClassAccess.Proofs.Rule.LineByLine
import ClassAccess.Proofs.Rule.Merging
import ClassAccess.Proofs.Rule.NormalForm
import ClassAccess.Proofs.Rule.Request
import ClassAccess.Proofs.Rule.Sequence
import ClassAccess.Proofs.Rule.Widened
import ClassAccess.Proofs.Rule.Words
import ClassAccess.Proofs.RuleSet.Answers
import ClassAccess.Proofs.RuleSet.Classes
import ClassAccess.Proofs.RuleSet.Duplicates
import ClassAccess.Proofs.RuleSet.Grouping
import ClassAccess.Proofs.RuleSet.Loading
import ClassAccess.Proofs.RuleSet.Lookup
import ClassAccess.Proofs.RuleSet.Reachable
import ClassAccess.Proofs.RuleSet.Unmatchable
import ClassAccess.Proofs.Text.ByteLines
import ClassAccess.Proofs.Text.Comment
import ClassAccess.Proofs.Text.Lines
import ClassAccess.Proofs.Text.Trim
import ClassAccess.Proofs.Text.Utf8
import ClassAccess.Proofs.Widening.Failures
import ClassAccess.Proofs.Widening.Files
import ClassAccess.Proofs.Widening.FlagWords
import ClassAccess.Proofs.Widening.Frame
import ClassAccess.Proofs.Widening.Gives
import ClassAccess.Proofs.Widening.InTurn
import ClassAccess.Proofs.Widening.Laws
import ClassAccess.Proofs.Widening.MoreRules
import ClassAccess.Proofs.Widening.NamedErrors
import ClassAccess.Proofs.Widening.OnePass
import ClassAccess.Proofs.Widening.OpenedMethods
import ClassAccess.Proofs.Widening.Relevance
import ClassAccess.Proofs.Widening.SelfCalls
import ClassAccess.Proofs.Widening.SharedSignatures
import ClassAccess.Proofs.Widening.Shortcut
import ClassAccess.Proofs.Widening.Structure
import ClassAccess.Proofs.Widening.Verdict
import ClassAccess.Proofs.Widening.Visits
import ClassAccess.Proofs.Widening.Warnings
import ClassAccess.Rule.Basic
import ClassAccess.Rule.Line
import ClassAccess.Rule.ParseError
import ClassAccess.Rule.Policy
import ClassAccess.Rule.Target
import ClassAccess.RuleSet.Basic
import ClassAccess.RuleSet.Index
import ClassAccess.RuleSet.Load
import ClassAccess.RuleSet.Warning
import ClassAccess.Text.Blank
import ClassAccess.Text.Comment
import ClassAccess.Text.Hex
import ClassAccess.Text.Lines
import ClassAccess.Text.Quoted
import ClassAccess.Text.Unseen
import ClassAccess.Text.Utf8
import ClassAccess.Widening.Pass
import ClassAccess.Widening.Report
import ClassAccess.Widening.SelfCall
