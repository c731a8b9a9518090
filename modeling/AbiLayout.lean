import AbiLayout.Layout.Session
import AbiLayout.Proofs.Ideal.Basic
import AbiLayout.Proofs.Rounding
import AbiLayout.Proofs.Sessions
import AbiLayout.Schema.Declarations
import AbiLayout.Proofs.Scalars
import AbiLayout.Proofs.Agreement.Cursor
import AbiLayout.Proofs.Agreement.Struct
import AbiLayout.Proofs.Ideal.Padding
import AbiLayout.Proofs.Ideal.Union
import AbiLayout.Proofs.Agreement.Finish
import AbiLayout.Proofs.Resolution
import AbiLayout.Proofs.Agreement.Record
import AbiLayout.Proofs.Answers
import AbiLayout.Proofs.WellFormed
import AbiLayout.Proofs.Lookup
import AbiLayout.Proofs.Arenas
import AbiLayout.Proofs.Closing
import AbiLayout.Proofs.Totality
import AbiLayout.Proofs.Overflow
import AbiLayout.Proofs.Profiles
import AbiLayout.Proofs.Cycles
import AbiLayout.Proofs.Questions
import AbiLayout.Proofs.Memory
import AbiLayout.Proofs.Queries
import AbiLayout.Proofs.Faults
import AbiLayout.Proofs.Failures
import AbiLayout.Proofs.Ideal.Comparison
import AbiLayout.Proofs.Agreement.Bits
import AbiLayout.Proofs.Policies
import AbiLayout.Proofs.Transparency
import AbiLayout.Proofs.Building
import AbiLayout.Proofs.Coverage
import AbiLayout.Proofs.Nesting
import AbiLayout.Proofs.Checking
import AbiLayout.Proofs.Histories
import AbiLayout.Proofs.Steady
import AbiLayout.Proofs.Layable
import AbiLayout.Proofs.Acceptance
import AbiLayout.Proofs.Course
import AbiLayout.Proofs.Members
import AbiLayout.Proofs.Positions
import AbiLayout.Proofs.Units
import AbiLayout.Proofs.Greedy
import AbiLayout.Proofs.Enclosing
import AbiLayout.Proofs.Search
import AbiLayout.Proofs.Alike
import AbiLayout.Proofs.Lockstep
import AbiLayout.Proofs.Tails
import AbiLayout.Proofs.Appending
import AbiLayout.Proofs.Overlays
import AbiLayout.Proofs.Reordering
import AbiLayout.Proofs.Arrays
import AbiLayout.Proofs.Announcements
import AbiLayout.Proofs.Bitfields
import AbiLayout.Proofs.Settings
import AbiLayout.Proofs.Multiples
import AbiLayout.Proofs.Tables
import AbiLayout.Proofs.Movements
import AbiLayout.Proofs.Renaming
