import Mathlib.Data.List.Basic

/-!
# Files and what a power loss leaves of them

A file system of names and the files they stand for, and what of both is on the disk for good: of a file what was there
at its last sync, of a name what it stood for at the last sync of its directory. A process that dies takes nothing of
either with it. A power loss leaves of a file what was synced, with anything after it, and of a name anything it stood
for since its directory was synced (`PowerLoss`).

`Whole` is what a name may come to: nothing, or one of some contents, each of them in full. `Firm` is a name that stands
for one content whatever happens, and `Begins` one whose content begins so. The operations keep all three of the names
whose files they do not write (`Apart`).
-/

namespace CarbonRuntime.Core.Durable

structure File (β : Type*) where
  content : List β := []
  /-- How much of the content is on the disk. -/
  synced : Nat := 0

structure FileSystem (ν β : Type*) where
  /-- The number of the next file. -/
  next : Nat := 0
  files : Nat → File β := fun _ => {}
  names : ν → Option Nat := fun _ => none
  /-- What else the name has stood for since its directory was synced. -/
  earlier : ν → List (Option Nat) := fun _ => []

variable {ν β : Type*} {s s' : FileSystem ν β} {n m : ν} {i k : Nat} {c : List β} {x : Option Nat}

namespace FileSystem

def read (s : FileSystem ν β) (n : ν) : Option (List β) := (s.names n).map fun i => (s.files i).content

/-- The name may stand for it after a power loss. -/
def May (s : FileSystem ν β) (n : ν) (x : Option Nat) : Prop := x = s.names n ∨ x ∈ s.earlier n

/-! ## Operations -/

/-- `open` of a name that stands for nothing. -/
def create [DecidableEq ν] (s : FileSystem ν β) (n : ν) : FileSystem ν β :=
  { next := s.next + 1
    files := Function.update s.files s.next {}
    names := Function.update s.names n (some s.next)
    earlier := Function.update s.earlier n (s.names n :: s.earlier n) }

/-- Change the file a name stands for. -/
def onFile (s : FileSystem ν β) (n : ν) (f : File β → File β) : FileSystem ν β :=
  match s.names n with
  | some i => { s with files := Function.update s.files i (f (s.files i)) }
  | none => s

def append (s : FileSystem ν β) (n : ν) (b : β) : FileSystem ν β :=
  s.onFile n fun f => { f with content := f.content ++ [b] }

/-- `fsync` of the file. -/
def sync (s : FileSystem ν β) (n : ν) : FileSystem ν β := s.onFile n fun f => { f with synced := f.content.length }

def rename [DecidableEq ν] (s : FileSystem ν β) (n m : ν) : FileSystem ν β :=
  { s with
    names := Function.update (Function.update s.names n none) m (s.names n)
    earlier := Function.update (Function.update s.earlier n (s.names n :: s.earlier n)) m (s.names m :: s.earlier m) }

/-- `fsync` of a directory, the names of which are given. -/
def syncDir (s : FileSystem ν β) (inside : ν → Bool) : FileSystem ν β :=
  { s with earlier := fun n => if inside n then [] else s.earlier n }

/-- What is left of a file: what was synced, and anything after it unless all was. -/
def Survives (f f' : File β) : Prop :=
  f.content.take f.synced <+: f'.content ∧ (f.synced = f.content.length → f'.content = f.content) ∧
    f'.synced = f'.content.length

structure PowerLoss (s s' : FileSystem ν β) : Prop where
  next : s'.next = s.next
  files : ∀ i, Survives (s.files i) (s'.files i)
  names : ∀ n, s.May n (s'.names n)
  earlier : ∀ n, s'.earlier n = []

/-- What is left at the least. -/
def lost (s : FileSystem ν β) : FileSystem ν β :=
  { next := s.next
    files := fun i =>
      let content := (s.files i).content.take (s.files i).synced
      ⟨content, content.length⟩
    names := fun n => (s.earlier n).getLast?.getD (s.names n)
    earlier := fun _ => [] }

theorem powerLoss_lost (s : FileSystem ν β) : PowerLoss s s.lost where
  next := rfl
  files i := by
    refine ⟨List.prefix_rfl, fun h => ?_, rfl⟩
    simp only [lost, h, List.take_length]
  names n := by
    unfold May lost
    dsimp only
    cases he : (s.earlier n).getLast? with
    | none => exact .inl rfl
    | some x => exact .inr (List.mem_of_getLast? he)
  earlier _ := rfl

/-! ## What a name comes to -/

/-- The file is `c`, all of it on the disk. -/
def Sealed (s : FileSystem ν β) (i : Nat) (c : List β) : Prop := s.files i = ⟨c, c.length⟩

/-- The name comes to nothing, or to one of these contents in full. -/
def Whole (s : FileSystem ν β) (n : ν) (among : List β → Prop) : Prop :=
  ∀ i, s.May n (some i) → ∃ c, among c ∧ s.Sealed i c

/-- The name stands for this content, for good. -/
def Firm (s : FileSystem ν β) (n : ν) (c : List β) : Prop := s.earlier n = [] ∧ ∃ i, s.names n = some i ∧ s.Sealed i c

/-- The name stands for a file of which the disk has this beginning. -/
def Held (s : FileSystem ν β) (n : ν) (c : List β) : Prop :=
  ∃ i, s.names n = some i ∧ c <+: (s.files i).content.take (s.files i).synced

/-- The name stands for a file that begins so, for good. -/
def Begins (s : FileSystem ν β) (n : ν) (c : List β) : Prop := s.earlier n = [] ∧ s.Held n c

/-- What any name may stand for has a number below the next. -/
def Numbered (s : FileSystem ν β) : Prop := ∀ n i, s.May n (some i) → i < s.next

theorem Firm.read (h : s.Firm n c) : s.read n = some c := by
  obtain ⟨-, i, hi, hc⟩ := h
  rw [FileSystem.read, hi, Option.map_some, hc]

theorem Held.read (h : s.Held n c) : ∃ t, s.read n = some (c ++ t) := by
  obtain ⟨i, hi, hc⟩ := h
  obtain ⟨t, ht⟩ := hc.trans (List.take_prefix _ _)
  exact ⟨t, by rw [FileSystem.read, hi, Option.map_some, ht]⟩

theorem Whole.read {among : List β → Prop} (h : s.Whole n among) (hr : s.read n = some c) : among c := by
  obtain ⟨i, hi, rfl⟩ := Option.map_eq_some_iff.1 hr
  obtain ⟨c, hc, hs⟩ := h i (.inl hi.symm)
  rw [hs]
  exact hc

theorem Whole.mono {among among' : List β → Prop} (h : s.Whole n among) (hm : ∀ c, among c → among' c) :
    s.Whole n among' := fun i hi => by
  obtain ⟨c, hc, hs⟩ := h i hi
  exact ⟨c, hm c hc, hs⟩

theorem Firm.whole (h : s.Firm n c) : s.Whole n (· = c) := by
  obtain ⟨he, i, hi, hc⟩ := h
  rintro k (hk | hk)
  · obtain rfl := Option.some.inj (hk.trans hi)
    exact ⟨c, rfl, hc⟩
  · rw [he] at hk
    cases hk

/-! ## A power loss -/

section powerLoss
variable (h : PowerLoss s s')
include h

theorem PowerLoss.may (hx : s'.May n x) : s.May n x := by
  rcases hx with rfl | hx
  · exact h.names n
  · rw [h.earlier] at hx
    cases hx

theorem PowerLoss.sealed (hs : s.Sealed i c) : s'.Sealed i c := by
  obtain ⟨-, hall, hsynced⟩ := h.files i
  have hlen : (s.files i).synced = (s.files i).content.length := by rw [hs]
  have hcontent : (s'.files i).content = c := (hall hlen).trans (by rw [hs])
  unfold Sealed
  cases hf : s'.files i with
  | mk content synced =>
    rw [hf] at hcontent hsynced
    simp only at hcontent hsynced
    rw [hsynced, hcontent]

theorem PowerLoss.whole {among : List β → Prop} (hw : s.Whole n among) : s'.Whole n among := fun i hi => by
  obtain ⟨c, hc, hs⟩ := hw i (h.may hi)
  exact ⟨c, hc, h.sealed hs⟩

theorem PowerLoss.firm (hf : s.Firm n c) : s'.Firm n c := by
  obtain ⟨he, i, hi, hs⟩ := hf
  refine ⟨h.earlier n, i, ?_, h.sealed hs⟩
  rcases h.names n with hn | hn
  · rw [hn, hi]
  · rw [he] at hn
    cases hn

theorem PowerLoss.begins (hb : s.Begins n c) : s'.Begins n c := by
  obtain ⟨he, i, hi, hc⟩ := hb
  obtain ⟨hpre, -, hsynced⟩ := h.files i
  refine ⟨h.earlier n, i, ?_, ?_⟩
  · rcases h.names n with hn | hn
    · rw [hn, hi]
    · rw [he] at hn
      cases hn
  · rw [hsynced, List.take_length]
    exact hc.trans hpre

theorem PowerLoss.numbered (hn : s.Numbered) : s'.Numbered := fun n i hi => by
  rw [h.next]
  exact hn n i (h.may hi)

end powerLoss

/-! ## Operations on other names -/

/-- The name can come to no file that the operation writes, and the operation leaves the name alone. -/
structure Apart (s s' : FileSystem ν β) (n : ν) : Prop where
  names : s'.names n = s.names n
  earlier : s'.earlier n = s.earlier n ∨ s'.earlier n = []
  files : ∀ i, s.May n (some i) → s'.files i = s.files i

section apart
variable (h : Apart s s' n)
include h

theorem Apart.may (hx : s'.May n x) : s.May n x := by
  rcases hx with rfl | hx
  · exact .inl h.names
  · rcases h.earlier with he | he
    · exact .inr (he ▸ hx)
    · rw [he] at hx
      cases hx

theorem Apart.read : s'.read n = s.read n := by
  rw [FileSystem.read, FileSystem.read, h.names]
  cases hi : s.names n with
  | none => rfl
  | some i => rw [Option.map_some, Option.map_some, h.files i (.inl hi.symm)]

theorem Apart.whole {among : List β → Prop} (hw : s.Whole n among) : s'.Whole n among := fun i hi => by
  obtain ⟨c, hc, hs⟩ := hw i (h.may hi)
  exact ⟨c, hc, (h.files i (h.may hi)).trans hs⟩

theorem Apart.firm (hf : s.Firm n c) : s'.Firm n c := by
  obtain ⟨he, i, hi, hs⟩ := hf
  exact ⟨h.earlier.elim (·.trans he) id, i, h.names.trans hi, (h.files i (.inl hi.symm)).trans hs⟩

theorem Apart.held (hb : s.Held n c) : s'.Held n c := by
  obtain ⟨i, hi, hc⟩ := hb
  refine ⟨i, h.names.trans hi, ?_⟩
  rw [h.files i (.inl hi.symm)]
  exact hc

theorem Apart.begins (hb : s.Begins n c) : s'.Begins n c :=
  ⟨h.earlier.elim (·.trans hb.1) id, h.held hb.2⟩

end apart

/-! ## What each operation does -/

theorem may_create [DecidableEq ν] : (s.create n).May m x ↔ (m = n ∧ x = some s.next) ∨ s.May m x := by
  unfold May create
  by_cases hm : m = n
  · subst hm
    simp
  · simp [hm]

theorem may_onFile {f : File β → File β} : (s.onFile n f).May m x ↔ s.May m x := by
  unfold onFile
  split <;> rfl

theorem may_rename [DecidableEq ν] (hk : n ≠ m) {p : ν} : (s.rename n m).May p x →
    (p = m ∧ x = s.names n) ∨ (p = n ∧ x = none) ∨ s.May p x := by
  unfold May rename
  by_cases hm : p = m
  · subst hm
    simp only [Function.update_self, List.mem_cons, true_and]
    tauto
  · by_cases hn : p = n
    · subst hn
      simp [hm]
    · simp [hm, hn]

theorem may_syncDir {inside : ν → Bool} (h : (s.syncDir inside).May m x) : s.May m x := by
  rcases h with h | h
  · exact .inl h
  · unfold syncDir at h
    dsimp only at h
    split at h
    · cases h
    · exact .inr h

theorem apart_create [DecidableEq ν] (hn : s.Numbered) (hm : m ≠ n) : Apart s (s.create n) m where
  names := Function.update_of_ne hm _ _
  earlier := .inl (Function.update_of_ne hm _ _)
  files i hi := Function.update_of_ne (Nat.ne_of_lt (hn m i hi)) _ _

theorem apart_onFile {f : File β → File β} (hi : s.names n = some i) (hm : ¬ s.May m (some i)) :
    Apart s (s.onFile n f) m := by
  unfold onFile
  rw [hi]
  refine ⟨rfl, .inl rfl, fun k hk => Function.update_of_ne ?_ _ _⟩
  rintro rfl
  exact hm hk

theorem apart_rename [DecidableEq ν] {p : ν} (hm : p ≠ n) (hk : p ≠ m) : Apart s (s.rename n m) p where
  names := by simp [rename, hm, hk]
  earlier := .inl (by simp [rename, hm, hk])
  files _ _ := rfl

theorem apart_syncDir (inside : ν → Bool) (m : ν) : Apart s (s.syncDir inside) m where
  names := rfl
  earlier := by
    unfold syncDir
    dsimp only
    split
    · exact .inr rfl
    · exact .inl rfl
  files _ _ := rfl

theorem onFile_names {f : File β → File β} : (s.onFile n f).names = s.names := by
  unfold onFile
  split <;> rfl

theorem onFile_files {f : File β → File β} (hi : s.names n = some i) :
    (s.onFile n f).files i = f (s.files i) := by
  unfold onFile
  rw [hi]
  exact Function.update_self _ _ _

theorem onFile_earlier {f : File β → File β} : (s.onFile n f).earlier = s.earlier := by
  unfold onFile
  split <;> rfl

theorem onFile_next {f : File β → File β} : (s.onFile n f).next = s.next := by
  unfold onFile
  split <;> rfl

theorem Numbered.create [DecidableEq ν] (h : s.Numbered) : (s.create n).Numbered := fun m i hi => by
  rcases may_create.1 hi with ⟨-, he⟩ | hi
  · cases he
    exact Nat.lt_succ_self _
  · exact Nat.lt_succ_of_lt (h m i hi)

theorem Numbered.onFile {f : File β → File β} (h : s.Numbered) : (s.onFile n f).Numbered := fun m i hi => by
  rw [onFile_next]
  exact h m i (may_onFile.1 hi)

theorem Numbered.rename [DecidableEq ν] (h : s.Numbered) (hk : n ≠ m) : (s.rename n m).Numbered := fun p i hi => by
  rcases may_rename hk hi with ⟨-, he⟩ | ⟨-, he⟩ | hi
  · exact h n i (.inl he)
  · cases he
  · exact h p i hi

theorem Numbered.syncDir (h : s.Numbered) (inside : ν → Bool) : (s.syncDir inside).Numbered :=
  fun m i hi => h m i (may_syncDir hi)

/-! ### On the file itself -/

theorem held_append (h : s.Held n c) (b : β) : (s.append n b).Held n c := by
  obtain ⟨i, hi, hc⟩ := h
  refine ⟨i, by rw [append, onFile_names, hi], ?_⟩
  rw [append, onFile_files hi, List.take_append]
  exact hc.trans (List.prefix_append _ _)

theorem held_sync (h : s.Held n c) : (s.sync n).Held n c := by
  obtain ⟨i, hi, hc⟩ := h
  refine ⟨i, by rw [sync, onFile_names, hi], ?_⟩
  rw [sync, onFile_files hi, List.take_length]
  exact hc.trans (List.take_prefix _ _)

end FileSystem

end CarbonRuntime.Core.Durable
