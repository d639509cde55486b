import DigitalSystems.Slc3.Datapath
import Mathlib.Algebra.Group.Nat.Defs
import Mathlib.Data.List.GetD
import Mathlib.Data.List.Sort

/-!
# The session of the bubble sort menu

What the menu program offers to the person at the board: sixteen words that can be typed
in, sorted and looked at, one at a time.
-/

namespace DigitalSystems.Slc3.Menu

/-- Sixteen words that the sort compares correctly. -/
structure Words where
  list : List Word
  length : list.length = 16
  small : ∀ word ∈ list, word.toNat < 2 ^ 15

namespace Words

def word (words : Words) (i : Nat) : Word := words.list.getD i 0#16

def enter (words : Words) (i : Nat) (sw : BitVec 10) : Words where
  list := words.list.set i (sw.setWidth 16)
  length := (List.length_set ..).trans words.length
  small := by
    intro word member
    rcases List.mem_or_eq_of_mem_set member with old | rfl
    · exact words.small word old
    · rw [BitVec.toNat_setWidth_of_le (by decide)]
      exact Nat.lt_trans sw.isLt (by decide)

def sort (words : Words) : Words where
  list := words.list.insertionSort (· ≤ ·)
  length := (List.length_insertionSort ..).trans words.length
  small := fun word member => words.small word ((List.mem_insertionSort _).mp member)

theorem list_eq_map (words : Words) : words.list = (List.range 16).map words.word := by
  apply List.ext_getElem
  · rw [words.length, List.length_map, List.length_range]
  · intro i inside _
    rw [List.getElem_map, List.getElem_range, word, List.getD_eq_getElem _ _ inside]

theorem word_small (words : Words) {i : Nat} (inside : i < 16) :
    (words.word i).toNat < 2 ^ 15 := by
  apply words.small
  rw [list_eq_map]
  exact List.mem_map_of_mem (List.mem_range.mpr inside)

theorem word_enter (words : Words) {i : Nat} (inside : i < 16) (sw : BitVec 10) :
    (words.enter i sw).word = Function.update words.word i (sw.setWidth 16) := by
  funext j
  by_cases same : j = i
  · subst same
    rw [Function.update_self, word, enter, List.getD_eq_getElem?_getD,
      List.getElem?_set_self (words.length.symm ▸ inside)]
    rfl
  · rw [Function.update_of_ne same, word, enter, List.getD_eq_getElem?_getD,
      List.getElem?_set_ne (Ne.symm same), word, List.getD_eq_getElem?_getD]

/-- Being in order and made of the same words singles the sorted words out. -/
theorem word_sort (words : Words) {data : Nat → Word}
    (ordered : ∀ i j, i ≤ j → j < 16 → data i ≤ data j)
    (permuted : ((List.range 16).map data).Perm ((List.range 16).map words.word)) {i : Nat}
    (inside : i < 16) : words.sort.word i = data i := by
  have increasing : ((List.range 16).map data).Pairwise (· ≤ ·) := by
    rw [List.pairwise_map]
    refine List.pairwise_lt_range.imp_of_mem fun _ member before => ?_
    exact ordered _ _ (Nat.le_of_lt before) (List.mem_range.mp member)
  have same : words.sort.list = (List.range 16).map data := by
    apply List.Perm.eq_of_pairwise' (List.pairwise_insertionSort _ _) increasing
    rw [← list_eq_map] at permuted
    exact (List.perm_insertionSort _ _).trans permuted.symm
  rw [word, same, List.getD_eq_getElem _ _ (by simpa using inside), List.getElem_map,
    List.getElem_range]

end Words

inductive Phase where
  | selecting
  | entering (i : Fin 16)
  | showing (i : Fin 16)
  deriving DecidableEq

/-- On to word `i`; after the last one back to the menu. -/
def Phase.on (phase : Fin 16 → Phase) (i : Nat) : Phase :=
  if inside : i < 16 then phase ⟨i, inside⟩ else .selecting

theorem Phase.on_of_lt (phase : Fin 16 → Phase) {i : Nat} (inside : i < 16) :
    on phase i = phase ⟨i, inside⟩ := dif_pos inside

structure Session where
  words : Words
  phase : Phase

namespace Session

/-- The program takes a value over from the switches: a choice at the menu, where other
values than these three are ignored, or the next word. -/
def read (session : Session) (sw : BitVec 10) : Session :=
  match session.phase with
  | .selecting =>
      if sw = 1#10 then { session with phase := .on .entering 0 }
      else if sw = 2#10 then { session with words := session.words.sort }
      else if sw = 3#10 then { session with phase := .on .showing 0 }
      else session
  | .entering i => ⟨session.words.enter i sw, .on .entering (i + 1)⟩
  | .showing _ => session

/-- A word has been looked at. -/
def shown (session : Session) : Session :=
  match session.phase with
  | .showing i => { session with phase := .on .showing (i + 1) }
  | _ => session

/-- What comes of the button: a word has been looked at, or the switches are taken over. -/
def turn (session : Session) (sw : BitVec 10) : Session :=
  match session.phase with
  | .showing _ => session.shown
  | _ => session.read sw

/-- What the board shows while the program waits.  The LEDs of the first word shown are
left open. -/
def Shows (session : Session) (hexData : Word) (led : BitVec 10) : Prop :=
  match session.phase with
  | .selecting => led = 0x3FF#10
  | .entering i => hexData = BitVec.ofNat 16 i ∧ led = 0x001#10
  | .showing i =>
      hexData = session.words.word i ∧ ((i : Nat) ≠ 0 → led = BitVec.ofNat 10 (0x802 + 16 * i))

end Session

end DigitalSystems.Slc3.Menu
