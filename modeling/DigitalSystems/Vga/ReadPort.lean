import DigitalSystems.Clocked.Latest
import DigitalSystems.Vga.Interface

/-!
# Reads over the Avalon bus

The slave translator holds a read for two cycles and takes the data in the second.
The memory needs one edge and the register `AVL_READDATA` another, so what the
translator takes is the word the memory had ready before the read began: the one of
the previous read transaction.
-/

namespace DigitalSystems.Vga

/-- A bus transaction; `lines` are the signals other than the three strobes. -/
inductive Transaction where
  | write (lines : AvalonInput)
  | read (lines : AvalonInput)
  | idle (lines : AvalonInput)

namespace Transaction

def IsRead : Transaction → Prop
  | read _ => True
  | _ => False

def readCycle (lines : AvalonInput) : AvalonInput :=
  { lines with avlCs := true, avlRead := true, avlWrite := false }

def cycles : Transaction → List AvalonInput
  | write lines => [{ lines with avlCs := true, avlRead := false, avlWrite := true }]
  | read lines => [readCycle lines, readCycle lines]
  | idle lines => [{ lines with avlCs := false, avlRead := false, avlWrite := false }]

def writtenTo (address : BitVec 12) (k : Nat) : Transaction → Option (BitVec 8)
  | write lines =>
      if lines.avlAddr = address ∧ lines.avlByteEn.getLsbD k = true then
        some (Clocked.lane 8 lines.avlWritedata k)
      else none
  | _ => none

theorem split_at_last_read (history : List Transaction) :
    (∀ transaction ∈ history, ¬ transaction.IsRead) ∨
      ∃ earlier lines rest, history = earlier ++ read lines :: rest ∧
        ∀ transaction ∈ rest, ¬ transaction.IsRead := by
  induction history with
  | nil => exact Or.inl fun _ membership => absurd membership List.not_mem_nil
  | cons transaction history inductionHypothesis =>
      rcases inductionHypothesis with quiet | ⟨earlier, lines, rest, rfl, quiet⟩
      · cases transaction with
        | read lines => exact Or.inr ⟨[], lines, history, rfl, quiet⟩
        | write lines =>
            refine Or.inl fun other membership => ?_
            rcases List.mem_cons.mp membership with rfl | inside
            · exact id
            · exact quiet other inside
        | idle lines =>
            refine Or.inl fun other membership => ?_
            rcases List.mem_cons.mp membership with rfl | inside
            · exact id
            · exact quiet other inside
      · exact Or.inr ⟨transaction :: earlier, lines, rest, rfl, quiet⟩

end Transaction

namespace Interface

open Transaction

variable {mem : Onchipmem} (font : FontRom)

def apply (s : Interface mem) (transaction : Transaction) : Interface mem :=
  transaction.cycles.foldl (fun s input => step font input s) s

def after (start : Interface mem) (history : List Transaction) : Interface mem :=
  history.foldl (apply font) start

def returned (start : Interface mem) (history : List Transaction) (lines : AvalonInput) :
    VramWord :=
  (step font (readCycle lines) (after font start history)).avlReaddata

/-- The byte last written to lane `k` of a word, or its initial content. -/
def lastByte (start : Interface mem) (history : List Transaction) (address : BitVec 12)
    (k : Nat) : BitVec 8 :=
  (Clocked.latest? (writtenTo address k) history).getD
    (Clocked.lane 8 (start.word address) k)

def ReadsBack (start : Interface mem) (history : List Transaction) (lines : AvalonInput) :
    Prop :=
  ∀ k, k < 4 →
    Clocked.lane 8 (returned font start history lines) k =
      lastByte start history lines.avlAddr k

/-- The word addressed by the last read of `history` was, at that time, what `address`
holds now; without a read, the read register has held that from the start. -/
structure HeldCurrent (start : Interface mem) (history : List Transaction)
    (address : BitVec 12) : Prop where
  read : ∀ earlier lines rest, history = earlier ++ Transaction.read lines :: rest →
    (∀ transaction ∈ rest, ¬ transaction.IsRead) → ∀ k, k < 4 →
      lastByte start earlier lines.avlAddr k = lastByte start history address k
  quiet : (∀ transaction ∈ history, ¬ transaction.IsRead) → ∀ k, k < 4 →
    Clocked.lane 8 start.readA k = lastByte start history address k

variable {start : Interface mem}

theorem lane_apply (lawful : mem.Lawful) (s : Interface mem) (transaction : Transaction)
    (address : BitVec 12) (k : Nat) :
    Clocked.lane 8 ((apply font s transaction).word address) k =
      (transaction.writtenTo address k).getD (Clocked.lane 8 (s.word address) k) := by
  cases transaction with
  | write lines =>
      simp only [apply, cycles, List.foldl_cons, List.foldl_nil, lane_step _ _ _ lawful,
        writtenTo, true_and]
      split <;> rfl
  | read lines =>
      simp only [apply, cycles, List.foldl_cons, List.foldl_nil]
      rw [word_step_of_idle _ _ _ lawful rfl, word_step_of_idle _ _ _ lawful rfl]
      rfl
  | idle lines =>
      simp only [apply, cycles, List.foldl_cons, List.foldl_nil]
      rw [word_step_of_idle _ _ _ lawful rfl]
      rfl

theorem lane_after (lawful : mem.Lawful) (history : List Transaction)
    (address : BitVec 12) (k : Nat) :
    Clocked.lane 8 ((after font start history).word address) k =
      lastByte start history address k := by
  apply Clocked.observe_foldl_eq_latest (apply font)
    (fun s : Interface mem => Clocked.lane 8 (s.word address) k) (writtenTo address k)
  intro s transaction
  exact lane_apply font lawful s transaction address k

theorem readA_apply_read (lawful : mem.Lawful) (s : Interface mem) (lines : AvalonInput) :
    (apply font s (read lines)).readA = s.word lines.avlAddr := by
  simp only [apply, cycles, List.foldl_cons, List.foldl_nil]
  have kept := word_step_of_idle font (readCycle lines) s lawful rfl
  exact (lawful.qA_read _ _ rfl rfl).trans (congrFun kept lines.avlAddr)

theorem readA_apply_of_not_read (lawful : mem.Lawful) (s : Interface mem)
    {transaction : Transaction} (silent : ¬ transaction.IsRead) :
    (apply font s transaction).readA = s.readA := by
  cases transaction with
  | write lines => exact lawful.qA_hold _ _ rfl
  | read lines => exact absurd trivial silent
  | idle lines => exact lawful.qA_hold _ _ rfl

theorem readA_after_of_quiet (lawful : mem.Lawful) (history : List Transaction)
    (quiet : ∀ transaction ∈ history, ¬ transaction.IsRead) (start : Interface mem) :
    (after font start history).readA = start.readA := by
  induction history generalizing start with
  | nil => rfl
  | cons transaction history inductionHypothesis =>
      have rest := inductionHypothesis
        (fun other membership => quiet other (List.mem_cons_of_mem _ membership))
        (apply font start transaction)
      rw [← readA_apply_of_not_read font lawful start (quiet transaction List.mem_cons_self)]
      exact rest

theorem readA_after_of_read (lawful : mem.Lawful) (earlier rest : List Transaction)
    (lines : AvalonInput) (quiet : ∀ transaction ∈ rest, ¬ transaction.IsRead) :
    (after font start (earlier ++ read lines :: rest)).readA =
      (after font start earlier).word lines.avlAddr := by
  rw [after, List.foldl_append, List.foldl_cons]
  exact (readA_after_of_quiet font lawful rest quiet _).trans
    (readA_apply_read font lawful _ lines)

theorem returned_eq_readA (history : List Transaction) {lines : AvalonInput}
    (vram : isPalette lines.avlAddr = false) :
    returned font start history lines = (after font start history).readA := by
  simp [returned, nextReaddata, readCycle, vram]

/-- A read of video memory is right if and only if the word of the previous read
happens to be. -/
theorem readsBack_iff_heldCurrent (lawful : mem.Lawful) (start : Interface mem)
    (history : List Transaction) (lines : AvalonInput)
    (vram : isPalette lines.avlAddr = false) :
    ReadsBack font start history lines ↔ HeldCurrent start history lines.avlAddr := by
  rw [ReadsBack, returned_eq_readA font history vram]
  constructor
  · intro right
    constructor
    · rintro earlier last rest rfl quiet k bound
      rw [← lane_after font lawful earlier, ← readA_after_of_read font lawful _ _ _ quiet]
      exact right k bound
    · intro quiet k bound
      rw [← readA_after_of_quiet font lawful history quiet start]
      exact right k bound
  · intro held k bound
    rcases split_at_last_read history with quiet | ⟨earlier, last, rest, split, quiet⟩
    · rw [readA_after_of_quiet font lawful history quiet start]
      exact held.quiet quiet k bound
    · rw [← held.read earlier last rest split quiet k bound, split,
        readA_after_of_read font lawful _ _ _ quiet, lane_after font lawful]

def writeThenReadOther : List Transaction :=
  [ .write
      { AvalonInput.idle with avlByteEn := 0b1111#4, avlWritedata := 0xDEADBEEF#32 },
    .read { AvalonInput.idle with avlAddr := 1#12 } ]

/-- Word 0 reads back as word 1. -/
theorem writeThenReadOther_reads_stale :
    ¬ ReadsBack (fun _ => 0#8) cleared writeThenReadOther AvalonInput.idle := by
  intro right
  exact absurd (right 0 (by decide)) (by decide +kernel)

theorem readsBack_iff_heldCurrent_writeThenReadOther :
    ReadsBack (fun _ => 0#8) cleared writeThenReadOther AvalonInput.idle ↔
      HeldCurrent cleared writeThenReadOther 0#12 :=
  readsBack_iff_heldCurrent (fun _ => 0#8) Onchipmem.reference_lawful cleared
    writeThenReadOther AvalonInput.idle rfl

end Interface

end DigitalSystems.Vga
