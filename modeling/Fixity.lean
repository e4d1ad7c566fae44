import Fixity.Main
import Fixity.World
import Fixity.Proofs.Grouping
import Fixity.Proofs.Collapse
import Fixity.Proofs.Statements
import Fixity.Proofs.Placement
import Fixity.Proofs.Lexing
import Fixity.Proofs.Extension
import Fixity.Proofs.Doubles
import Fixity.Proofs.Literals
import Fixity.Proofs.Balance
import Fixity.Proofs.Spelling
import Fixity.Proofs.Readable
import Fixity.Proofs.RoundTrip
import Fixity.Proofs.Rows
import Fixity.Proofs.Frames
import Fixity.Proofs.Preservation
import Fixity.Proofs.Generations
import Fixity.Proofs.Resumption
import Fixity.Proofs.Stepwise
import Fixity.Proofs.Closures
import Fixity.Proofs.Places
import Fixity.Proofs.Comparison
import Fixity.Proofs.Watch
import Fixity.Proofs.Depth
import Fixity.Proofs.Isolation
import Fixity.Proofs.Stacks
import Fixity.Proofs.Tidiness
import Fixity.Proofs.ScopedApplication
import Fixity.Proofs.Integers
import Fixity.Proofs.Integrality
import Fixity.Proofs.Definitions
import Fixity.Proofs.Comments
import Fixity.Proofs.Regrouping
import Fixity.Proofs.Usage
import Fixity.Proofs.Copies
import Fixity.Proofs.Histories
import Fixity.Proofs.Visibility
import Fixity.Proofs.Refusals
import Fixity.Proofs.Recursion
import Fixity.Proofs.Walking
import Fixity.Proofs.Cycles
import Fixity.Proofs.Insertions
import Fixity.Proofs.Bounds
import Fixity.Proofs.Following
import Fixity.Proofs.MacroApplication
import Fixity.Proofs.ShortCircuit
import Fixity.Proofs.Numerals
import Fixity.Proofs.Pairs
import Fixity.Proofs.Symmetry
import Fixity.Proofs.Contents
import Fixity.Proofs.Combining
import Fixity.Proofs.Negation
import Fixity.Proofs.Broadcasting
import Fixity.Proofs.Pieces
import Fixity.Proofs.Splices
import Fixity.Proofs.Sources
import Fixity.Proofs.Constants
import Fixity.Proofs.Escaping
import Fixity.Proofs.Lifting
import Fixity.Proofs.Exactness
import Fixity.Proofs.Ranks
import Fixity.Proofs.Indexing
import Fixity.Proofs.Partition
import Fixity.Proofs.Settling
import Fixity.Proofs.Sorting
import Fixity.Proofs.Quicksort
import Fixity.Proofs.Objects
import Fixity.Proofs.Parts
import Fixity.Proofs.Grammar
import Fixity.Proofs.Cutting
import Fixity.Proofs.Scanner
import Fixity.Proofs.Wholeness
import Fixity.Proofs.Assembly
import Fixity.Proofs.Builtins
import Fixity.Proofs.Control
import Fixity.Proofs.Expansion
import Fixity.Proofs.Indifference
import Fixity.Proofs.Transparency
import Fixity.Proofs.StandardLibrary
import Fixity.Proofs.EagerOperators
import Fixity.Proofs.Lines
import Fixity.Proofs.Destructuring
import Fixity.Proofs.PartialApplication
import Fixity.Proofs.Separators
import Fixity.Proofs.Rounds
import Fixity.Proofs.Termination
import Fixity.Proofs.Feeding
import Fixity.Proofs.Unfed
import Fixity.Proofs.Folds
import Fixity.Proofs.Dialogues
import Fixity.Proofs.Consultations
import Fixity.Proofs.FreshNames
