/-!
# Kinds of access

An access has a kind. The core issues the three *demand* kinds; a cache that drops a dirty line
makes a write-back of its own; a check asks whether a line is present and changes nothing. Where
instructions and data have separate first-level caches, the kind also says on which side an
access travels.
-/

namespace CacheHierarchy

/-- What an access asks of the memory. -/
inductive AccessKind
  | read
  | write
  | instFetch
  | writeBack
  | check
  deriving DecidableEq, Repr, Inhabited

/-- The two sides of a split first level. -/
inductive Side
  | instruction
  | data
  deriving DecidableEq, Repr, Inhabited

namespace AccessKind

def demandKinds : List AccessKind := [read, write, instFetch]

def isDemand (kind : AccessKind) : Bool := demandKinds.contains kind

/-- The access leaves its line dirty where it is serviced. -/
def isWrite : AccessKind → Bool
  | write => true
  | _ => false

def isWriteBack : AccessKind → Bool
  | writeBack => true
  | _ => false

/-- Instruction fetches travel on the instruction side, all else on the data side. -/
def side : AccessKind → Side
  | instFetch => .instruction
  | _ => .data

/-- Levels below the first service a write as a read: dirtiness belongs to the level above until
the line is written back. -/
def belowFirstLevel : AccessKind → AccessKind
  | write => read
  | kind => kind

def symbol : AccessKind → String
  | read => "R"
  | write => "W"
  | instFetch => "I"
  | writeBack => "WB"
  | check => "CHK"

@[simp] theorem isDemand_read : read.isDemand = true := rfl
@[simp] theorem isDemand_write : write.isDemand = true := rfl
@[simp] theorem isDemand_instFetch : instFetch.isDemand = true := rfl
@[simp] theorem isDemand_writeBack : writeBack.isDemand = false := rfl
@[simp] theorem isDemand_check : check.isDemand = false := rfl

theorem isWrite_iff {kind : AccessKind} : kind.isWrite = true ↔ kind = write := by
  cases kind <;> simp [isWrite]

theorem isWriteBack_iff {kind : AccessKind} : kind.isWriteBack = true ↔ kind = writeBack := by
  cases kind <;> simp [isWriteBack]

/-- Below the first level no kind writes. -/
@[simp] theorem isWrite_belowFirstLevel (kind : AccessKind) :
    kind.belowFirstLevel.isWrite = false := by
  cases kind <;> rfl

theorem isDemand_belowFirstLevel {kind : AccessKind} (h : kind.isDemand = true) :
    kind.belowFirstLevel.isDemand = true := by
  cases kind <;> first | rfl | cases h

end AccessKind

end CacheHierarchy
