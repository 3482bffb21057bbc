import TreeWalk.Main
import TreeWalk.Syntax.References
import TreeWalk.Proofs.Events
import TreeWalk.Proofs.Runs
import TreeWalk.Proofs.Survey
import TreeWalk.Proofs.Identities
import TreeWalk.Proofs.Parsed
import TreeWalk.Proofs.Settled
import TreeWalk.Proofs.Balanced
import TreeWalk.Proofs.Surveyed
import TreeWalk.Proofs.Watch
import TreeWalk.Proofs.Layers
import TreeWalk.Proofs.Accesses
import TreeWalk.Proofs.Kept
import TreeWalk.Proofs.Standing
import TreeWalk.Proofs.Receivers
import TreeWalk.Proofs.Quiet
import TreeWalk.Proofs.Walked
import TreeWalk.Proofs.Chronicle
import TreeWalk.Proofs.Reached
import TreeWalk.Proofs.Lookups
import TreeWalk.Proofs.Constructors
import TreeWalk.Proofs.Renaming
import TreeWalk.Proofs.Seams
import TreeWalk.Proofs.Followed
import TreeWalk.Proofs.Lines
import TreeWalk.Proofs.Programs
import TreeWalk.Proofs.Rechecked
import TreeWalk.Proofs.Relabeled
import TreeWalk.Proofs.Twins
import TreeWalk.Proofs.Alike
import TreeWalk.Proofs.Checked
import TreeWalk.Proofs.Throughout
import TreeWalk.Proofs.Traceless
import TreeWalk.Proofs.Grammar
import TreeWalk.Proofs.Reading
import TreeWalk.Proofs.Derived
import TreeWalk.Proofs.Taken
import TreeWalk.Proofs.Expressions
import TreeWalk.Proofs.Recognized
import TreeWalk.Proofs.Spellings
import TreeWalk.Proofs.Echoes
import TreeWalk.Proofs.Companions
import TreeWalk.Proofs.Accompanied
import TreeWalk.Proofs.Alongside
import TreeWalk.Proofs.Places
import TreeWalk.Proofs.Alpha
import TreeWalk.Proofs.Rescoped
import TreeWalk.Proofs.Reflected
import TreeWalk.Proofs.LocalNames
import TreeWalk.Proofs.Apart
import TreeWalk.Proofs.Once
import TreeWalk.Proofs.Searched
import TreeWalk.Proofs.Environments
import TreeWalk.Proofs.Lexemes
import TreeWalk.Proofs.Pieces
import TreeWalk.Proofs.Growth
import TreeWalk.Proofs.Distinct
import TreeWalk.Proofs.Contents
import TreeWalk.Proofs.Redefinitions
import TreeWalk.Proofs.Calls
import TreeWalk.Proofs.Enclosed
import TreeWalk.Proofs.Steadfast
import TreeWalk.Proofs.Receiving
import TreeWalk.Proofs.Positions
import TreeWalk.Proofs.WellFormed
import TreeWalk.Proofs.Deciding
import TreeWalk.Proofs.Verdicts
import TreeWalk.Proofs.Onward
import TreeWalk.Proofs.Sequence
import TreeWalk.Proofs.Nodes
import TreeWalk.Proofs.Lexical
import TreeWalk.Proofs.Turns
import TreeWalk.Proofs.Untouched
import TreeWalk.Proofs.Numbered
import TreeWalk.Proofs.Drawn
import TreeWalk.Proofs.Longer
import TreeWalk.Proofs.Rounds
import TreeWalk.Proofs.Globals
import TreeWalk.Proofs.Truncated
import TreeWalk.Proofs.Likeness
import TreeWalk.Proofs.Worlds
import TreeWalk.Proofs.Layerings
import TreeWalk.Proofs.FreshRounds
import TreeWalk.Proofs.Idle
import TreeWalk.Proofs.Widened
import TreeWalk.Proofs.Spans
import TreeWalk.Proofs.Overlays
import TreeWalk.Proofs.Chained
import TreeWalk.Proofs.Recorded
import TreeWalk.Proofs.Paces
import TreeWalk.Proofs.Tandems
import TreeWalk.Proofs.Overlaid
import TreeWalk.Proofs.IdleActions
import TreeWalk.Proofs.Closures
import TreeWalk.Proofs.Returns
import TreeWalk.Proofs.Unchained
import TreeWalk.Proofs.ElseIf
import TreeWalk.Proofs.Enough
import TreeWalk.Proofs.FirstError
import TreeWalk.Proofs.Intervals
import TreeWalk.Proofs.Numerals
import TreeWalk.Proofs.Shapes
import TreeWalk.Proofs.Printed
import TreeWalk.Proofs.Written
import TreeWalk.Proofs.Atoms
import TreeWalk.Proofs.Faithful
import TreeWalk.Proofs.Slots
import TreeWalk.Proofs.Respaced
import TreeWalk.Proofs.Octets
import TreeWalk.Proofs.Offsets
import TreeWalk.Proofs.Forward
import TreeWalk.Proofs.Scripts
import TreeWalk.Proofs.Careful
import TreeWalk.Proofs.Descent
import TreeWalk.Proofs.Advancing
import TreeWalk.Proofs.Replies
import TreeWalk.Proofs.Enduring
import TreeWalk.Proofs.FirstTokens
