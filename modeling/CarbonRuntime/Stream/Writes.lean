import CarbonRuntime.Core.Durable
import CarbonRuntime.Core.LTS
import CarbonRuntime.Core.Wp
import Mathlib.Data.Nat.Digits.Defs

/-!
# How the store writes a file (stream/store.ts:140-176, 246-254)

`writeAtomic` writes a temporary file, syncs it, renames it over its target and syncs the directory; `appendFsync`
appends to a file and syncs it, and the directory where it made the file; `nextSeq` reads the ordinal and writes the
next. Each runs against files and names of which a power loss keeps only what was synced (Core/Durable.lean), may fail
at any operation, and may be cut short after any. One process writes at a time; a file is written by `writeAtomic` or
by `appendFsync` and never by both; the directories are there (`mkdirp` syncs none).

**Results.** `read_whole`: a file that `writeAtomic` writes reads as all of what one call was given, in every state.
`write_lasts`: what a call was given that returned is read until the next call on that file, whatever dies between.
`append_lasts`: what was appended stays, once a file of the directory was written after it. `ordinals_rise`: no two
calls of `nextSeq` return one ordinal, and a later one returns a greater.
-/

open CarbonRuntime.Core CarbonRuntime.Core.Durable

namespace CarbonRuntime.Stream.Writes

/-! ## Names -/

inductive Base
  /-- Written by `writeAtomic`. -/
  | whole (name : String)
  /-- Appended to. -/
  | log (name : String)
  /-- `.temp-${process.pid}-${tempCounter}` -/
  | temp (pid counter : Nat)
deriving DecidableEq

structure Name where
  dir : String
  base : Base
deriving DecidableEq

def Name.isTemp (n : Name) : Bool :=
  match n.base with
  | .temp _ _ => true
  | _ => false

/-- mirrors store.ts:152 -/
def Name.tempOf (file : Name) (pid counter : Nat) : Name := ⟨file.dir, .temp pid counter⟩

def Name.isLog (n : Name) : Bool :=
  match n.base with
  | .log _ => true
  | _ => false

def Name.isWhole (n : Name) : Bool :=
  match n.base with
  | .whole _ => true
  | _ => false

abbrev Files := FileSystem Name Char

inductive Op
  | create (n : Name)
  | append (n : Name) (c : Char)
  | sync (n : Name)
  | rename (n m : Name)
  | syncDir (dir : String)
deriving DecidableEq

def inside (dir : String) (n : Name) : Bool := n.dir = dir

def Op.apply : Op → Files → Files
  | .create n, s => s.create n
  | .append n c, s => s.append n c
  | .sync n, s => s.sync n
  | .rename n m, s => s.rename n m
  | .syncDir dir, s => s.syncDir (inside dir)

/-- The one question is whether the operation at hand fails. -/
@[reducible] def sig : Sig where
  S := Files
  W := Op
  apply := Op.apply
  Q := Unit
  A _ := Bool
  valid _ _ _ := True
  after _ _ s := s
  E := String

abbrev Program (α : Type) := Prog sig α

def fetch : Program Files := Prog.get (𝔖 := sig)

def raise {α : Type} (problem : String) : Program α := .throw problem

/-- The operation, unless it fails. -/
def attempt (op : Op) : Program Unit := do
  let fails ← Prog.ask (𝔖 := sig) ()
  if fails then raise "EIO" else Prog.perform (𝔖 := sig) op

/-! ## The three writes -/

/-- mirrors store.ts:150-162 -/
def writeAtomic (temp file : Name) (data : List Char) : Program Unit := do
  let s ← fetch
  if (s.names temp).isSome then raise "EEXIST" else do
  attempt (.create temp)
  Prog.each (𝔖 := sig) (fun c => attempt (.append temp c)) data
  attempt (.sync temp)
  attempt (.rename temp file)
  attempt (.syncDir file.dir)

/-- mirrors store.ts:164-174 -/
def appendFsync (file : Name) (data : List Char) : Program Unit := do
  let s ← fetch
  let existed := (s.names file).isSome
  if existed then pure () else attempt (.create file)
  Prog.each (𝔖 := sig) (fun c => attempt (.append file c)) data
  attempt (.sync file)
  if existed then pure () else attempt (.syncDir file.dir)

def seqFile : Name := ⟨"", .whole "seq"⟩

/-- `${next}\n` -/
def ordinalText (n : Nat) : List Char := Nat.toDigits 10 n ++ ['\n']

/-- `Number(text.trim()) || 0`, of a text that ends in one line break at most -/
def ordinalOf (text : List Char) : Nat :=
  let digits := if text.getLast? = some '\n' then text.dropLast else text
  if digits.all Char.isDigit then Nat.ofDigitChars 10 digits 0 else 0

/-- mirrors store.ts:246-254; a file that cannot be read is one that is not there -/
def nextSeq (readable : Bool) (temp : Name) : Program Nat := do
  let s ← fetch
  let value := if readable then ((s.read seqFile).map ordinalOf).getD 0 else 0
  writeAtomic temp seqFile (ordinalText (value + 1))
  pure (value + 1)

theorem ordinalOf_text (n : Nat) : ordinalOf (ordinalText n) = n := by
  have hdigits : (Nat.toDigits 10 n).all Char.isDigit = true :=
    List.all_eq_true.2 fun c hc => Nat.isDigit_of_mem_toDigits (by decide) (by decide) hc
  simp [ordinalOf, ordinalText, hdigits]

/-! ## The system -/

inductive Call
  | write (file : Name) (data : List Char)
  | append (file : Name) (data : List Char)
  | nextSeq (readable : Bool)
deriving DecidableEq

/-- The kinds of file are kept apart, and the ordinal's file is `nextSeq`'s, which can read it. -/
def Call.fits : Call → Prop
  | .write file _ => file.isWhole = true ∧ file ≠ seqFile
  | .append file _ => file.isLog = true
  | .nextSeq readable => readable = true

def Call.target : Call → Name
  | .write file _ => file
  | .append file _ => file
  | .nextSeq _ => seqFile

/-- The call under a temporary name; it answers an ordinal or nothing. -/
def serve (temp : Name) : Call → Program (Option Nat)
  | .write file data => do
    writeAtomic temp file data
    pure none
  | .append file data => do
    appendFsync file data
    pure none
  | .nextSeq readable => do
    let n ← nextSeq readable temp
    pure (some n)

structure State where
  files : Files := {}
  /-- The data `writeAtomic` was given, by the calls that were begun. -/
  begun : List (Name × List Char) := []
  /-- What `nextSeq` returned, the newest first. -/
  returned : List Nat := []

inductive Doing
  /-- A call and what it returned, `none` where it threw or was cut short. -/
  | call (c : Call) (x : Option (Option Nat))
  | powerLoss
deriving DecidableEq

def Call.begins : Call → List (Name × List Char)
  | .write file data => [(file, data)]
  | _ => []

def store : LTS State Doing where
  init s := s = {}
  step s
    | .call c none, s' => c.fits ∧ s'.begun = c.begins ++ s.begun ∧ s'.returned = s.returned ∧
        ∃ pid counter p, Prog.Steps (serve (c.target.tempOf pid counter) c, s.files) (p, s'.files)
    | .call c (some x), s' => c.fits ∧ s'.begun = c.begins ++ s.begun ∧ s'.returned = x.toList ++ s.returned ∧
        ∃ pid counter, Prog.Runs (serve (c.target.tempOf pid counter) c) s.files (.ok x) s'.files
    | .powerLoss, s' => s'.begun = s.begun ∧ s'.returned = s.returned ∧ FileSystem.PowerLoss s.files s'.files

variable {s₀ s s' : Files} {file temp n m : Name} {T : Files → Prop} {data c : List Char} {k : Nat}

/-! ## What a write leaves of the other files -/

/-- What is known of a name stays known. -/
structure Stays (s₀ s : Files) (n : Name) : Prop where
  read : s.read n = s₀.read n
  whole : ∀ among, s₀.Whole n among → s.Whole n among
  firm : ∀ c, s₀.Firm n c → s.Firm n c
  held : ∀ c, s₀.Held n c → s.Held n c
  begins : ∀ c, s₀.Begins n c → s.Begins n c
  there : ¬ s₀.May n none → ¬ s.May n none

theorem Stays.refl (s : Files) (n : Name) : Stays s s n :=
  ⟨rfl, fun _ h => h, fun _ h => h, fun _ h => h, fun _ h => h, fun h => h⟩

theorem Stays.apart (h : Stays s₀ s n) (ha : FileSystem.Apart s s' n) : Stays s₀ s' n where
  read := ha.read.trans h.read
  whole among hw := ha.whole (h.whole among hw)
  firm c hf := ha.firm (h.firm c hf)
  held c hh := ha.held (h.held c hh)
  begins c hb := ha.begins (h.begins c hb)
  there hn hm := h.there hn (ha.may hm)

/-- A file that is appended to has one name. -/
def Lone (s : Files) : Prop :=
  ∀ n, n.isLog = true → ∀ i, s.May n (some i) → ∀ m, m ≠ n → ¬ s.May m (some i)

/-- What holds all through a call that writes `target`, of which `T` says what there is to say. -/
structure Good (s₀ : Files) (target : Name) (T : Files → Prop) (s : Files) : Prop where
  numbered : s.Numbered
  lone : Lone s
  others : ∀ m, m.isTemp = false → m ≠ target → Stays s₀ s m
  target : T s

theorem Good.step (h : Good s₀ file T s) (hn : s'.Numbered) (hl : Lone s')
    (ha : ∀ m, m.isTemp = false → m ≠ file → FileSystem.Apart s s' m) (ht : T s') : Good s₀ file T s' where
  numbered := hn
  lone := hl
  others m hm hne := (h.others m hm hne).apart (ha m hm hne)
  target := ht

theorem lone_create (h : Lone s) (hn : s.Numbered) : Lone (s.create n) := by
  intro p hp i hpi m hm hmi
  rcases FileSystem.may_create.1 hpi with ⟨hpn, he⟩ | hi
  · rcases FileSystem.may_create.1 hmi with ⟨hmn, -⟩ | hmi
    · exact hm (hmn.trans hpn.symm)
    · cases he
      exact Nat.lt_irrefl _ (hn m _ hmi)
  · rcases FileSystem.may_create.1 hmi with ⟨-, he⟩ | hmi
    · cases he
      exact Nat.lt_irrefl _ (hn p _ hi)
    · exact h p hp i hi m hm hmi

theorem lone_onFile {f : File Char → File Char} (h : Lone s) : Lone (s.onFile n f) := fun p hp i hi m hm hmi =>
  h p hp i (FileSystem.may_onFile.1 hi) m hm (FileSystem.may_onFile.1 hmi)

theorem lone_rename (h : Lone s) (hn : n.isLog = false) (hm : m.isLog = false) (hne : n ≠ m) :
    Lone (s.rename n m) := by
  intro p hp i hi q hq hqi
  have hpn : p ≠ n := by rintro rfl; rw [hn] at hp; cases hp
  have hpm : p ≠ m := by rintro rfl; rw [hm] at hp; cases hp
  have hi : s.May p (some i) := by
    rcases FileSystem.may_rename hne hi with ⟨he, -⟩ | ⟨he, -⟩ | hi
    · exact absurd he hpm
    · exact absurd he hpn
    · exact hi
  rcases FileSystem.may_rename hne hqi with ⟨-, he⟩ | ⟨-, he⟩ | hqi
  · exact h p hp i hi n hpn.symm (.inl he)
  · cases he
  · exact h p hp i hi q hq hqi

theorem lone_syncDir (h : Lone s) (inside : Name → Bool) : Lone (s.syncDir inside) := fun p hp i hi m hm hmi =>
  h p hp i (FileSystem.may_syncDir hi) m hm (FileSystem.may_syncDir hmi)

/-! ## The protocol of a call -/

def writing (s₀ : Files) (target : Name) (T : Files → Prop) : Proto sig where
  inv := Good s₀ target T
  ok op s := Good s₀ target T (op.apply s)
  heard _ _ _ := True
  rely _ s s' := s' = s
  act_inv _ _ _ h := h
  hear_inv _ _ _ h _ := h
  rely_inv _ _ _ h hr := by cases hr; exact h
  rely_refl _ _ := rfl
  rely_trans _ _ _ _ h h' := h'.trans h

theorem wp_attempt {op : Op} {Q : Unit → Files → Prop} (hok : Good s₀ file T (op.apply s))
    (hQ : Q () (op.apply s)) :
    Prog.wp (writing s₀ file T) (attempt op) Q (fun _ _ => True) s := by
  unfold attempt
  rw [Prog.wp_bind]
  refine (Prog.wp_ask (𝔖 := sig) ()).2 fun s₁ hs fails _ _ => ?_
  cases (show s₁ = s from hs)
  cases fails
  · exact (Prog.wp_perform (𝔖 := sig) op).2 ⟨hok, fun _ => hQ⟩
  · exact (Prog.wp_throw (𝔖 := sig) _).2 trivial

/-- The names of the directory are all on the disk. -/
def Settled (s : Files) (dir : String) : Prop := ∀ m : Name, m.dir = dir → s.earlier m = []

theorem settled_syncDir {dir : String} : Settled (s.syncDir (inside dir)) dir := fun _ hm =>
  if_pos (decide_eq_true hm)

/-! ## A file written anew -/

/-- What there is to say of a file that `writeAtomic` writes: it is one of these contents or, where it was never
there, nothing. -/
def Among (file : Name) (among : List Char → Prop) (there : Prop) (s : Files) : Prop :=
  s.Whole file among ∧ (there → ¬ s.May file none)

/-- The temporary file is written, under no other name. -/
structure Written (s : Files) (temp : Name) (k : Nat) (c : List Char) : Prop where
  names : s.names temp = some k
  content : (s.files k).content = c
  alone : ∀ m, m ≠ temp → ¬ s.May m (some k)

theorem Among.apart {among : List Char → Prop} {there : Prop} (h : Among file among there s)
    (ha : FileSystem.Apart s s' file) : Among file among there s' :=
  ⟨ha.whole h.1, fun ht hm => h.2 ht (ha.may hm)⟩

/-- A step on the temporary file. -/
theorem Good.onTemp {among : List Char → Prop} {there : Prop} {f : File Char → File Char}
    (h : Good s₀ file (Among file among there) s) (hw : Written s temp k c) (htemp : temp.isTemp = true)
    (hfile : file.isTemp = false) : Good s₀ file (Among file among there) (s.onFile temp f) := by
  have hne : ∀ m : Name, m.isTemp = false → m ≠ temp := by
    rintro m hm rfl
    rw [htemp] at hm
    cases hm
  have ha : ∀ m : Name, m.isTemp = false → FileSystem.Apart s (s.onFile temp f) m := fun m hm =>
    FileSystem.apart_onFile hw.names (hw.alone m (hne m hm))
  exact h.step h.numbered.onFile (lone_onFile h.lone) (fun m hm _ => ha m hm) (h.target.apart (ha file hfile))

theorem Written.append (h : Written s temp k c) (b : Char) : Written (s.append temp b) temp k (c ++ [b]) where
  names := by rw [FileSystem.append, FileSystem.onFile_names, h.names]
  content := by rw [FileSystem.append, FileSystem.onFile_files h.names, h.content]
  alone m hm hk := h.alone m hm (FileSystem.may_onFile.1 hk)

/-- The whole of the data is on the disk. -/
theorem Written.sync (h : Written s temp k c) :
    (s.sync temp).names temp = some k ∧ (s.sync temp).Sealed k c := by
  refine ⟨by rw [FileSystem.sync, FileSystem.onFile_names, h.names], ?_⟩
  rw [FileSystem.Sealed, FileSystem.sync, FileSystem.onFile_files h.names, h.content]

theorem Good.renamed {among : List Char → Prop} {there : Prop} (h : Good s₀ file (Among file among there) s)
    (hk : s.names temp = some k) (hc : s.Sealed k c) (hamong : among c) (htemp : temp.isTemp = true)
    (hfile : file.isWhole = true) : Good s₀ file (Among file among there) (s.rename temp file) := by
  have hne : temp ≠ file := by
    rintro rfl
    unfold Name.isTemp at htemp
    unfold Name.isWhole at hfile
    cases hb : temp.base <;> simp [hb] at htemp hfile
  have hlog : temp.isLog = false ∧ file.isLog = false := by
    unfold Name.isTemp at htemp
    unfold Name.isWhole at hfile
    unfold Name.isLog
    cases hb : temp.base <;> cases hb' : file.base <;> simp_all
  refine h.step (h.numbered.rename hne) (lone_rename h.lone hlog.1 hlog.2 hne) (fun m hm hmf => ?_) ⟨?_, ?_⟩
  · refine FileSystem.apart_rename ?_ hmf
    rintro rfl
    rw [htemp] at hm
    cases hm
  · intro i hi
    rcases FileSystem.may_rename hne hi with ⟨-, he⟩ | ⟨he, -⟩ | hi
    · obtain rfl := Option.some.inj (he.trans hk)
      exact ⟨c, hamong, hc⟩
    · exact absurd he hne.symm
    · exact h.target.1 i hi
  · intro ht hm
    rcases FileSystem.may_rename hne hm with ⟨-, he⟩ | ⟨he, -⟩ | hm
    · rw [hk] at he
      cases he
    · exact hne he.symm
    · exact h.target.2 ht hm

theorem Good.syncDir (h : Good s₀ file T s) (dir : String) (ht : T (s.syncDir (inside dir))) :
    Good s₀ file T (s.syncDir (inside dir)) :=
  h.step (h.numbered.syncDir _) (lone_syncDir h.lone _) (fun m _ _ => FileSystem.apart_syncDir _ m) ht

/-- A temporary file that is new stands under no other name. -/
theorem written_create (hn : s.Numbered) : Written (s.create temp) temp s.next [] where
  names := Function.update_self _ _ _
  content := by
    show (Function.update s.files s.next {} s.next).content = []
    rw [Function.update_self]
  alone m hm hk := by
    rcases FileSystem.may_create.1 hk with ⟨he, -⟩ | hk
    · exact hm he
    · exact Nat.lt_irrefl _ (hn m _ hk)

theorem Good.create {among : List Char → Prop} {there : Prop} (h : Good s₀ file (Among file among there) s)
    (htemp : temp.isTemp = true) (hfile : file.isTemp = false) :
    Good s₀ file (Among file among there) (s.create temp) := by
  have hne : ∀ m : Name, m.isTemp = false → m ≠ temp := by
    rintro m hm rfl
    rw [htemp] at hm
    cases hm
  exact h.step h.numbered.create (lone_create h.lone h.numbered)
    (fun m hm _ => FileSystem.apart_create h.numbered (hne m hm))
    (h.target.apart (FileSystem.apart_create h.numbered (hne file hfile)))

theorem isTemp_of_isWhole (h : file.isWhole = true) : file.isTemp = false := by
  unfold Name.isWhole at h
  unfold Name.isTemp
  cases hb : file.base <;> simp [hb] at h ⊢

theorem wp_writeAtomic {among : List Char → Prop} {there : Prop} (h : Good s₀ file (Among file among there) s)
    (htemp : temp.isTemp = true) (hfile : file.isWhole = true) (hamong : among data) :
    Prog.wp (writing s₀ file (Among file among there)) (writeAtomic temp file data)
      (fun _ s' => s'.Firm file data ∧ Settled s' file.dir) (fun _ _ => True) s := by
  have hft := isTemp_of_isWhole hfile
  simp only [writeAtomic, fetch, Prog.wp_bind]
  refine (Prog.wp_get (𝔖 := sig)).2 ?_
  split
  · exact (Prog.wp_throw (𝔖 := sig) _).2 trivial
  rw [Prog.wp_bind]
  refine wp_attempt (h.create htemp hft) ?_
  -- Each round appends one character to the temporary file.
  have hloop := Prog.wp_each (P := writing s₀ file (Among file among there)) (X := fun _ _ => True)
    (J := fun rest s => Good s₀ file (Among file among there) s ∧
      ∃ done k, data = done ++ rest ∧ Written s temp k done)
    (fun c => attempt (.append temp c)) (fun b rest s₁ hj => ?_) data (s.create temp)
    ⟨h.create htemp hft, [], s.next, rfl, written_create h.numbered⟩
  · rw [Prog.wp_bind]
    refine Prog.wp_mono _ hloop (fun _ s₁ hj => ?_) fun _ _ h => h
    obtain ⟨hg, done, k, hdone, hw⟩ := hj
    obtain rfl : data = done := by rw [hdone, List.append_nil]
    have hg : Good s₀ file (Among file among there) (s₁.sync temp) := hg.onTemp hw htemp hft
    obtain ⟨hk, hsealed⟩ := hw.sync
    rw [Prog.wp_bind]
    refine wp_attempt hg ?_
    rw [Prog.wp_bind]
    refine wp_attempt (hg.renamed hk hsealed hamong htemp hfile) ?_
    have hg := hg.renamed hk hsealed hamong htemp hfile
    refine wp_attempt (hg.syncDir _ (hg.target.apart (FileSystem.apart_syncDir _ _)))
      ⟨⟨settled_syncDir file rfl, k, ?_, hsealed⟩, settled_syncDir⟩
    exact (Function.update_self _ _ _).trans hk
  · obtain ⟨hg, done, k, hdone, hw⟩ := hj
    have hg : Good s₀ file (Among file among there) (s₁.append temp b) := hg.onTemp hw htemp hft
    refine wp_attempt hg ⟨hg, done ++ [b], k, ?_, hw.append b⟩
    rw [hdone, List.append_assoc, List.singleton_append]

/-! ## A file appended to -/

/-- What the disk had of the file it has. -/
def Extends (s₀ : Files) (file : Name) (s : Files) : Prop :=
  (∀ c, s₀.Held file c → s.Held file c) ∧ ∀ c, s₀.Begins file c → s.Begins file c

theorem Extends.refl (s : Files) (file : Name) : Extends s file s := ⟨fun _ h => h, fun _ h => h⟩

/-- The file that is appended to, and what it is now. -/
structure Grown (s : Files) (file : Name) (k : Nat) (c : List Char) : Prop where
  names : s.names file = some k
  content : (s.files k).content = c

theorem Good.onLog {f : File Char → File Char} (h : Good s₀ file (Extends s₀ file) s) (hk : s.names file = some k)
    (hlog : file.isLog = true) (hheld : ∀ c, s.Held file c → (s.onFile file f).Held file c) :
    Good s₀ file (Extends s₀ file) (s.onFile file f) := by
  refine h.step h.numbered.onFile (lone_onFile h.lone) (fun m _ hne => ?_) ⟨fun c hc => ?_, fun c hc => ⟨?_, ?_⟩⟩
  · exact FileSystem.apart_onFile hk (h.lone file hlog k (.inl hk.symm) m hne)
  · exact hheld c (h.target.1 c hc)
  · rw [FileSystem.onFile_earlier]
    exact (h.target.2 c hc).1
  · exact hheld c (h.target.2 c hc).2

theorem Grown.append (h : Grown s file k c) (b : Char) : Grown (s.append file b) file k (c ++ [b]) where
  names := by rw [FileSystem.append, FileSystem.onFile_names, h.names]
  content := by rw [FileSystem.append, FileSystem.onFile_files h.names, h.content]

theorem Grown.sync (h : Grown s file k c) : Grown (s.sync file) file k c ∧ (s.sync file).Held file c := by
  have hn : (s.sync file).names file = some k := by rw [FileSystem.sync, FileSystem.onFile_names, h.names]
  have hf : (s.sync file).files k = { s.files k with synced := (s.files k).content.length } := by
    rw [FileSystem.sync, FileSystem.onFile_files h.names]
  refine ⟨⟨hn, by rw [hf, h.content]⟩, k, hn, ?_⟩
  rw [hf, List.take_length]
  exact h.content ▸ List.prefix_rfl

theorem Grown.read (h : Grown s file k c) : s.read file = some c := by
  rw [FileSystem.read, h.names, Option.map_some, h.content]

/-- A file that is made stands for nothing that was there. -/
theorem Good.createLog (h : Good s₀ file (Extends s₀ file) s) (hnone : s.names file = none) :
    Good s₀ file (Extends s₀ file) (s.create file) := by
  have hnot : ∀ c, ¬ s.Held file c := fun c hc => by
    obtain ⟨i, hi, -⟩ := hc
    rw [hnone] at hi
    cases hi
  exact h.step h.numbered.create (lone_create h.lone h.numbered)
    (fun m _ hne => FileSystem.apart_create h.numbered hne)
    ⟨fun c hc => absurd (h.target.1 c hc) (hnot c), fun c hc => absurd (h.target.2 c hc).2 (hnot c)⟩

theorem grown_create (s : Files) (file : Name) : Grown (s.create file) file s.next [] where
  names := Function.update_self _ _ _
  content := by
    show (Function.update s.files s.next {} s.next).content = []
    rw [Function.update_self]

/-- The loop and the sync, from a file that is there. -/
theorem wp_appended {Q : Unit → Files → Prop} {p : Unit → Program Unit} {old : List Char}
    (h : Good s₀ file (Extends s₀ file) s) (hg : Grown s file k old) (hlog : file.isLog = true)
    (hQ : ∀ s', Good s₀ file (Extends s₀ file) s' → Grown s' file k (old ++ data) → s'.Held file (old ++ data) →
      Prog.wp (writing s₀ file (Extends s₀ file)) (p ()) Q (fun _ _ => True) s') :
    Prog.wp (writing s₀ file (Extends s₀ file)) (do
      Prog.each (𝔖 := sig) (fun c => attempt (.append file c)) data
      attempt (.sync file)
      p ()) Q (fun _ _ => True) s := by
  have hloop := Prog.wp_each (P := writing s₀ file (Extends s₀ file)) (X := fun _ _ => True)
    (J := fun rest s => Good s₀ file (Extends s₀ file) s ∧ ∃ done, data = done ++ rest ∧ Grown s file k (old ++ done))
    (fun c => attempt (.append file c)) (fun b rest s₁ hj => ?_) data s ⟨h, [], rfl, by rwa [List.append_nil]⟩
  · rw [Prog.wp_bind]
    refine Prog.wp_mono _ hloop (fun _ s₁ hj => ?_) fun _ _ h => h
    obtain ⟨h, done, hdone, hg⟩ := hj
    obtain rfl : data = done := by rw [hdone, List.append_nil]
    have h : Good s₀ file (Extends s₀ file) (s₁.sync file) :=
      h.onLog hg.names hlog fun c hc => FileSystem.held_sync hc
    rw [Prog.wp_bind]
    exact wp_attempt h (hQ _ h hg.sync.1 hg.sync.2)
  · obtain ⟨h, done, hdone, hg⟩ := hj
    have h : Good s₀ file (Extends s₀ file) (s₁.append file b) :=
      h.onLog hg.names hlog fun c hc => FileSystem.held_append hc b
    refine wp_attempt h ⟨h, done ++ [b], ?_, ?_⟩
    · rw [hdone, List.append_assoc, List.singleton_append]
    · rw [← List.append_assoc]
      exact hg.append b

theorem wp_appendFsync (h : Good s₀ file (Extends s₀ file) s) (hlog : file.isLog = true) :
    Prog.wp (writing s₀ file (Extends s₀ file)) (appendFsync file data)
      (fun _ s' => s'.Held file ((s.read file).getD [] ++ data) ∧ (s.names file = none → Settled s' file.dir))
      (fun _ _ => True) s := by
  simp only [appendFsync, fetch, Prog.wp_bind]
  refine (Prog.wp_get (𝔖 := sig)).2 ?_
  cases hk : s.names file with
  | some k =>
    have hg : Grown s file k (s.files k).content := ⟨hk, rfl⟩
    rw [hg.read]
    exact wp_appended h hg hlog fun s' _ _ hheld => (Prog.wp_pure (𝔖 := sig) ()).2 ⟨hheld, fun hn => by cases hn⟩
  | none =>
    have hread : s.read file = none := by rw [FileSystem.read, hk, Option.map_none]
    rw [hread]
    show Prog.wp _ (attempt (.create file) >>= fun _ => _) _ _ s
    rw [Prog.wp_bind]
    refine wp_attempt (h.createLog hk) ?_
    refine wp_appended (p := fun _ => attempt (.syncDir file.dir)) (h.createLog hk) (grown_create s file) hlog
      fun s' hs' _ hheld => ?_
    have ha : FileSystem.Apart s' (s'.syncDir (inside file.dir)) file := FileSystem.apart_syncDir _ _
    refine wp_attempt (hs'.syncDir _ ⟨fun c hc => ha.held (hs'.target.1 c hc), fun c hc => ha.begins (hs'.target.2 c hc)⟩)
      ⟨ha.held hheld, fun _ => settled_syncDir⟩

/-! ## The ordinal -/

/-- Ordinals that were not returned before, or the last that was. -/
def Ordinal (returned : List Nat) (c : List Char) : Prop := ∃ v, c = ordinalText v ∧ ∀ r ∈ returned, r ≤ v

abbrev AmongOrdinals (returned : List Nat) : Files → Prop :=
  Among seqFile (Ordinal returned) (returned ≠ [])

variable {returned : List Nat}

theorem AmongOrdinals.le (h : AmongOrdinals returned s) :
    ∀ r ∈ returned, r ≤ ((s.read seqFile).map ordinalOf).getD 0 := by
  intro r hr
  cases hread : s.read seqFile with
  | none =>
    have hnone : s.names seqFile = none := Option.map_eq_none_iff.1 hread
    exact absurd (.inl hnone.symm) (h.2 (List.ne_nil_of_mem hr))
  | some c =>
    obtain ⟨v, rfl, hv⟩ := h.1.read hread
    rw [Option.map_some, Option.getD_some, ordinalOf_text]
    exact hv r hr

theorem wp_nextSeq (h : Good s₀ seqFile (AmongOrdinals returned) s) (htemp : temp.isTemp = true) :
    Prog.wp (writing s₀ seqFile (AmongOrdinals returned)) (nextSeq true temp)
      (fun n s' => (∀ r ∈ returned, r < n) ∧ s'.Firm seqFile (ordinalText n) ∧ Settled s' seqFile.dir)
      (fun _ _ => True) s := by
  simp only [nextSeq, fetch, Prog.wp_bind, if_true]
  refine (Prog.wp_get (𝔖 := sig)).2 ?_
  have hle := h.target.le
  have hnext : Ordinal returned (ordinalText (((s.read seqFile).map ordinalOf).getD 0 + 1)) :=
    ⟨_, rfl, fun r hr => (hle r hr).trans (Nat.le_succ _)⟩
  refine Prog.wp_mono _ (wp_writeAtomic h htemp rfl hnext) (fun _ s' hs' => ?_) fun _ _ h => h
  exact (Prog.wp_pure (𝔖 := sig) _).2 ⟨fun r hr => Nat.lt_succ_of_le (hle r hr), hs'⟩

/-! ## A call -/

/-- What a call says of its file all along. -/
def Call.about (begun : List (Name × List Char)) (returned : List Nat) (s₀ : Files) : Call → Files → Prop
  | .write file data => Among file (fun c => (file, c) ∈ (file, data) :: begun) False
  | .append file _ => Extends s₀ file
  | .nextSeq _ => AmongOrdinals returned

/-- What it says where it returned. -/
def Call.done (returned : List Nat) (s₀ : Files) (c : Call) (x : Option Nat) (s : Files) : Prop :=
  match c with
  | .write file data => x = none ∧ s.Firm file data ∧ Settled s file.dir
  | .append file data => x = none ∧ s.Held file ((s₀.read file).getD [] ++ data) ∧
      (s₀.names file = none → Settled s file.dir)
  | .nextSeq _ => ∃ n, x = some n ∧ (∀ r ∈ returned, r < n) ∧ s.Firm seqFile (ordinalText n) ∧
      Settled s seqFile.dir

/-- What holds of the store in every state. -/
structure Sys (s : State) : Prop where
  numbered : s.files.Numbered
  lone : Lone s.files
  whole : ∀ file : Name, file.isWhole = true → file ≠ seqFile → s.files.Whole file fun c => (file, c) ∈ s.begun
  ordinal : AmongOrdinals s.returned s.files
  rising : s.returned.Pairwise (· > ·)

theorem Good.start {T : Files → Prop} (hn : s.Numbered) (hl : Lone s) (ht : T s) : Good s file T s :=
  ⟨hn, hl, fun m _ _ => Stays.refl s m, ht⟩

theorem Sys.good {t : State} (h : Sys t) {call : Call} (hc : call.fits) :
    Good t.files call.target (call.about t.begun t.returned t.files) t.files := by
  cases call with
  | write file data =>
    refine .start h.numbered h.lone ⟨(h.whole file hc.1 hc.2).mono fun c hc => List.mem_cons_of_mem _ hc, ?_⟩
    exact fun hf => hf.elim
  | append file data => exact .start h.numbered h.lone (Extends.refl _ _)
  | nextSeq readable => exact .start h.numbered h.lone h.ordinal

theorem wp_serve {t : State} (h : Sys t) {call : Call} (hc : call.fits) (pid counter : Nat) :
    Prog.wp (writing t.files call.target (call.about t.begun t.returned t.files))
      (serve (call.target.tempOf pid counter) call) (call.done t.returned t.files) (fun _ _ => True) t.files := by
  have hgood := h.good hc
  cases call with
  | write file data =>
    rw [serve, Prog.wp_bind]
    refine Prog.wp_mono _ (wp_writeAtomic hgood rfl hc.1 (List.mem_cons_self ..)) (fun _ s' hs' => ?_) fun _ _ h => h
    exact (Prog.wp_pure (𝔖 := sig) _).2 ⟨rfl, hs'⟩
  | append file data =>
    rw [serve, Prog.wp_bind]
    refine Prog.wp_mono _ (wp_appendFsync hgood hc) (fun _ s' hs' => ?_) fun _ _ h => h
    exact (Prog.wp_pure (𝔖 := sig) _).2 ⟨rfl, hs'⟩
  | nextSeq readable =>
    obtain rfl : readable = true := hc
    rw [serve, Prog.wp_bind]
    refine Prog.wp_mono _ (wp_nextSeq hgood rfl) (fun n s' hs' => ?_) fun _ _ h => h
    exact (Prog.wp_pure (𝔖 := sig) _).2 ⟨n, rfl, hs'⟩

/-- What a call leaves, whether it returned or not. -/
theorem call_good {t : State} (h : Sys t) {call : Call} (hc : call.fits) {pid counter : Nat}
    {p : Program (Option Nat)} (hs : Prog.Steps (serve (call.target.tempOf pid counter) call, t.files) (p, s')) :
    Good t.files call.target (call.about t.begun t.returned t.files) s' :=
  (Prog.wp_steps (P := writing t.files call.target (call.about t.begun t.returned t.files))
    (fun _ _ _ _ => trivial) hs (h.good hc) (wp_serve h hc pid counter)).1

theorem call_done {t : State} (h : Sys t) {call : Call} (hc : call.fits) {pid counter : Nat} {x : Option Nat}
    (hs : Prog.Runs (serve (call.target.tempOf pid counter) call) t.files (.ok x) s') :
    call.done t.returned t.files x s' :=
  (Prog.wp_runs (P := writing t.files call.target (call.about t.begun t.returned t.files))
    (fun _ _ _ _ => trivial) hs (h.good hc) (wp_serve h hc pid counter)).2

/-! ## The store over its runs -/

variable {t t' t₁ t₂ t₃ t₄ : State} {ls ls' : List Doing} {l : Doing} {call : Call}

theorem isLog_ne (hlog : file.isLog = true) (hwhole : m.isWhole = true) : m ≠ file := by
  rintro rfl
  unfold Name.isLog at hlog
  unfold Name.isWhole at hwhole
  cases hb : m.base <;> simp [hb] at hlog hwhole

theorem isTemp_of_isLog (h : file.isLog = true) : file.isTemp = false := by
  unfold Name.isLog at h
  unfold Name.isTemp
  cases hb : file.base <;> simp [hb] at h ⊢

theorem AmongOrdinals.stays (h : AmongOrdinals returned s) (hs : Stays s s' seqFile) : AmongOrdinals returned s' :=
  ⟨hs.whole _ h.1, fun ht => hs.there (h.2 ht)⟩

theorem Sys.after (h : Sys t) (hc : call.fits)
    (hg : Good t.files call.target (call.about t.begun t.returned t.files) t'.files)
    (hb : t'.begun = call.begins ++ t.begun) (hr : t'.returned = t.returned) : Sys t' where
  numbered := hg.numbered
  lone := hg.lone
  whole file hw hne := by
    rw [hb]
    by_cases hfile : file = call.target
    · cases call with
      | write file' data => exact hfile ▸ hg.target.1
      | append file' data => exact absurd hfile (isLog_ne hc hw)
      | nextSeq readable => exact absurd hfile hne
    · refine ((hg.others file (isTemp_of_isWhole hw) hfile).whole _ (h.whole file hw hne)).mono fun c hc => ?_
      exact List.mem_append_right _ hc
  ordinal := by
    rw [hr]
    cases call with
    | write file data => exact h.ordinal.stays (hg.others seqFile rfl (Ne.symm hc.2))
    | append file data => exact h.ordinal.stays (hg.others seqFile rfl (isLog_ne hc rfl))
    | nextSeq readable => exact hg.target
  rising := hr ▸ h.rising

theorem Firm.amongOrdinals (h : s.Firm seqFile (ordinalText k)) (hk : ∀ r ∈ returned, r < k) :
    AmongOrdinals (k :: returned) s := by
  refine ⟨h.whole.mono fun c hc => ⟨k, hc, fun r hr => ?_⟩, fun _ hm => ?_⟩
  · rcases List.mem_cons.1 hr with rfl | hr
    · exact Nat.le_refl _
    · exact Nat.le_of_lt (hk r hr)
  · obtain ⟨he, i, hi, -⟩ := h
    rcases hm with hm | hm
    · rw [hi] at hm
      cases hm
    · rw [he] at hm
      cases hm

theorem lone_powerLoss (h : FileSystem.PowerLoss s s') (hs : Lone s) : Lone s' := fun n hn i hi m hm hmi =>
  hs n hn i (h.may hi) m hm (h.may hmi)

theorem Sys.step (h : Sys t) (hst : store.step t l t') : Sys t' := by
  cases l with
  | powerLoss =>
    obtain ⟨hb, hr, hp⟩ := hst
    refine ⟨hp.numbered h.numbered, lone_powerLoss hp h.lone, fun file hw hne => ?_, ?_, hr ▸ h.rising⟩
    · rw [hb]
      exact hp.whole (h.whole file hw hne)
    · rw [hr]
      exact ⟨hp.whole h.ordinal.1, fun ht hm => h.ordinal.2 ht (hp.may hm)⟩
  | call c x =>
    cases x with
    | none =>
      obtain ⟨hc, hb, hr, pid, counter, p, hs⟩ := hst
      exact h.after hc (call_good h hc hs) hb hr
    | some x =>
      obtain ⟨hc, hb, hr, pid, counter, hs⟩ := hst
      have hdone := call_done h hc hs
      cases c with
      | nextSeq readable =>
        have hsys : Sys { t' with returned := t.returned } := h.after hc (call_good h hc hs) hb rfl
        obtain ⟨n, rfl, hn, hfirm, -⟩ := hdone
        refine ⟨hsys.numbered, hsys.lone, hsys.whole, ?_, ?_⟩
        · rw [hr]
          exact Firm.amongOrdinals hfirm hn
        · rw [hr]
          exact List.pairwise_cons.2 ⟨hn, h.rising⟩
      | _ =>
        obtain ⟨rfl, -⟩ := hdone
        exact h.after hc (call_good h hc hs) hb hr

theorem store_sys : store.Inductive Sys where
  init t h := by
    obtain rfl := h
    refine ⟨fun n i hi => ?_, fun n _ i hi => ?_, fun file _ _ i hi => ?_, ⟨fun i hi => ?_, fun h => absurd rfl h⟩, .nil⟩ <;>
      rcases hi with hi | hi <;> cases hi
  step _ _ _ h hst := h.step hst

/-! ## What lasts -/

/-- What the step does to a file that it does not write. -/
theorem stays_step (h : Sys t) {x : Option (Option Nat)} (hst : store.step t (.call call x) t')
    (hm : m.isTemp = false) (hne : call.target ≠ m) : Stays t.files t'.files m := by
  cases x with
  | none =>
    obtain ⟨hc, -, -, pid, counter, p, hs⟩ := hst
    exact (call_good h hc hs).others m hm hne.symm
  | some x =>
    obtain ⟨hc, -, -, pid, counter, hs⟩ := hst
    exact (call_good h hc hs).others m hm hne.symm

/-- What the step does to a file that is appended to. -/
theorem extends_step (h : Sys t) {x : Option (Option Nat)} (hst : store.step t (.call call x) t')
    (hlog : file.isLog = true) : Extends t.files file t'.files := by
  by_cases hne : call.target = file
  · have hg : Good t.files call.target (call.about t.begun t.returned t.files) t'.files := by
      cases x with
      | none =>
        obtain ⟨hc, -, -, pid, counter, p, hs⟩ := hst
        exact call_good h hc hs
      | some x =>
        obtain ⟨hc, -, -, pid, counter, hs⟩ := hst
        exact call_good h hc hs
    have hc : call.fits := by cases x <;> exact hst.1
    cases call with
    | write file' data => exact absurd hne (isLog_ne hlog hc.1)
    | append file' data =>
      obtain rfl : file' = file := hne
      exact hg.target
    | nextSeq readable => exact absurd hne (isLog_ne hlog rfl)
  · have hs := stays_step h hst (isTemp_of_isLog hlog) hne
    exact ⟨hs.held, hs.begins⟩

theorem firm_step (h : Sys t) (hst : store.step t l t') (hm : m.isTemp = false)
    (hl : ∀ c x, l = .call c x → c.target ≠ m) (hf : t.files.Firm m data) : t'.files.Firm m data := by
  cases l with
  | powerLoss => exact hst.2.2.firm hf
  | call c x => exact (stays_step h hst hm (hl c x rfl)).firm _ hf

theorem begins_step (h : Sys t) (hst : store.step t l t') (hlog : file.isLog = true)
    (hb : t.files.Begins file data) : t'.files.Begins file data := by
  cases l with
  | powerLoss => exact hst.2.2.begins hb
  | call c x => exact (extends_step h hst hlog).2 _ hb

theorem held_step (h : Sys t) (hst : store.step t l t') (hlog : file.isLog = true) (hl : l ≠ .powerLoss)
    (hb : t.files.Held file data) : t'.files.Held file data := by
  cases l with
  | powerLoss => exact absurd rfl hl
  | call c x => exact (extends_step h hst hlog).1 _ hb

theorem settled_done (h : Sys t) {x : Option Nat} (hst : store.step t (.call call (some x)) t')
    (hw : call.target.isWhole = true) : Settled t'.files call.target.dir := by
  obtain ⟨hc, -, -, pid, counter, hs⟩ := hst
  have hdone := call_done h hc hs
  cases call with
  | write file data => exact hdone.2.2
  | append file data => exact absurd rfl (isLog_ne hc hw)
  | nextSeq readable =>
    obtain ⟨n, -, -, -, hsettled⟩ := hdone
    exact hsettled

/-! ### Runs with no failure -/

instance : ∀ q a s, Decidable (sig.valid q a s) := fun _ _ _ => instDecidableTrue

/-- The call, where no operation fails. -/
def called (c : Call) (counter : Nat) (s : Files) : Option (Option Nat × Files) :=
  match Prog.finishWith (𝔖 := sig) (fun _ _ _ => false) 0 (serve (c.target.tempOf 1 counter) c) s with
  | some (.ok x, s') => some (x, s')
  | _ => none

/-- The call, cut short so many steps from its start. -/
def cut (c : Call) (counter fuel : Nat) (s : Files) : Files :=
  (Prog.stepsWith (𝔖 := sig) (fun _ _ _ => false) fuel 0 (serve (c.target.tempOf 1 counter) c) s).2

theorem called_step (call : Call) (t : State) {counter : Nat} {x : Option Nat} (hc : call.fits)
    (h : called call counter t.files = some (x, s')) :
    store.step t (.call call (some x)) ⟨s', call.begins ++ t.begun, x.toList ++ t.returned⟩ := by
  refine ⟨hc, rfl, rfl, 1, counter, ?_⟩
  unfold called at h
  split at h
  · rename_i hf
    cases h
    exact Prog.finishWith_runs _ hf
  · cases h

theorem cut_step (call : Call) (t : State) (hc : call.fits) (counter fuel : Nat) :
    store.step t (.call call none) ⟨cut call counter fuel t.files, call.begins ++ t.begun, t.returned⟩ :=
  ⟨hc, rfl, rfl, 1, counter, _, Prog.stepsWith_steps fuel 0 _ _⟩

theorem lost_step (t : State) : store.step t .powerLoss { t with files := t.files.lost } :=
  ⟨rfl, rfl, FileSystem.powerLoss_lost _⟩

/-! ### The results -/

theorem reachable_start : store.Reachable {} := ⟨{}, [], rfl, .nil _⟩

/-- A file is never read half written, and never with what no call was given. -/
theorem read_whole (h : store.Reachable t) (hw : file.isWhole = true) (hne : file ≠ seqFile)
    (hr : t.files.read file = some c) : (file, c) ∈ t.begun :=
  ((store_sys.reachable t h).whole file hw hne).read hr

def note : Name := ⟨"captures", .whole "m1.json"⟩

def raw : Name := ⟨"captures", .log "m1.raw"⟩

/-- The calls the examples below make, each with what it answers. -/
theorem calls_answer :
    (called (.write note ['x']) 0 {}).any (fun r => decide (r.1 = none ∧ r.2.read note = some ['x'])) = true ∧
    (called (.append raw ['x']) 0 {}).any (fun r => decide (r.1 = none) &&
      (called (.write note ['y']) 0 r.2).any fun r => decide (r.1 = none)) = true ∧
    (called (.append raw ['x']) 0 (cut (.append raw ['w']) 0 5 {})).any (fun r =>
      decide (r.1 = none ∧ r.2.lost.read raw = none)) = true ∧
    (called (.nextSeq true) 0 {}).any (fun r => decide (r.1 = some 1) &&
      (called (.nextSeq true) 0 r.2.lost).any fun r => decide (r.1 = some 2)) = true := by
  decide +kernel

theorem read_whole_note : ∃ t, store.Reachable t ∧ t.files.read note = some ['x'] ∧ (note, ['x']) ∈ t.begun := by
  obtain ⟨hnote, -⟩ := calls_answer
  obtain ⟨⟨x, s⟩, hcalled, hread⟩ := (Option.any_eq_true _ _).1 hnote
  have ht := reachable_start.step (called_step (.write note ['x']) {} ⟨rfl, by decide⟩ hcalled)
  exact ⟨_, ht, (of_decide_eq_true hread).2, read_whole ht rfl (by decide) (of_decide_eq_true hread).2⟩

/-- Until a next call on the file, whatever dies. -/
theorem write_lasts {x : Option Nat} (h : store.Reachable t) (hst : store.step t (.call (.write file data) (some x)) t₁)
    (hrun : store.Run t₁ ls t₂) (hl : ∀ c y, Doing.call c y ∈ ls → c.target ≠ file) :
    t₂.files.read file = some data := by
  have hsys := store_sys.reachable t h
  have hw : file.isWhole = true := hst.1.1
  have hdone : t₁.files.Firm file data := by
    obtain ⟨hc, -, -, pid, counter, hs⟩ := hst
    exact (call_done hsys hc hs).2.1
  have hlast := hrun.keeps (I := fun t => Sys t ∧ t.files.Firm file data) ⟨hsys.step hst, hdone⟩
    fun s l s' hmem hI hstep => ⟨hI.1.step hstep, firm_step hI.1 hstep (isTemp_of_isWhole hw)
      (fun c y he => hl c y (he ▸ hmem)) hI.2⟩
  exact hlast.2.read

/-- A call on another file dies, and the power goes. -/
theorem write_lasts_note : ∃ t t₁ t₂ ls, store.Reachable t ∧ store.step t (.call (.write note ['x']) (some none)) t₁ ∧
    store.Run t₁ ls t₂ ∧ .powerLoss ∈ ls ∧ t₂.files.read note = some ['x'] := by
  obtain ⟨hnote, -⟩ := calls_answer
  obtain ⟨⟨x, s⟩, hcalled, hx⟩ := (Option.any_eq_true _ _).1 hnote
  obtain rfl : x = none := (of_decide_eq_true hx).1
  have hst := called_step (.write note ['x']) {} ⟨rfl, by decide⟩ hcalled
  have hrun := LTS.Run.cons (cut_step (.append raw ['y']) ⟨s, [(note, ['x'])], []⟩ rfl 1 5) (.cons (lost_step _) (.nil _))
  exact ⟨_, _, _, _, reachable_start, hst, hrun, by decide,
    write_lasts reachable_start hst hrun (by simp [Call.target, raw, note])⟩

/-- Appended to a file that the call made. -/
theorem append_made {x : Option Nat} (h : store.Reachable t) (hst : store.step t (.call (.append file data) (some x)) t₁)
    (hnone : t.files.read file = none) (hrun : store.Run t₁ ls t₂) :
    ∃ more, t₂.files.read file = some (data ++ more) := by
  have hsys := store_sys.reachable t h
  have hlog : file.isLog = true := hst.1
  have hbegins : t₁.files.Begins file data := by
    obtain ⟨hc, -, -, pid, counter, hs⟩ := hst
    obtain ⟨-, hheld, hsettled⟩ := call_done hsys hc hs
    rw [hnone] at hheld
    exact ⟨hsettled (Option.map_eq_none_iff.1 hnone) file rfl, hheld⟩
  have hlast := hrun.keeps (I := fun t => Sys t ∧ t.files.Begins file data) ⟨hsys.step hst, hbegins⟩
    fun s l s' _ hI hstep => ⟨hI.1.step hstep, begins_step hI.1 hstep hlog hI.2⟩
  exact hlast.2.2.read

/-- Appended to any file: the directory must be synced before the power goes, and the next whole file does it. -/
theorem append_lasts {x y : Option Nat} (h : store.Reachable t)
    (hst : store.step t (.call (.append file data) (some x)) t₁) (hrun : store.Run t₁ ls t₂) (hl : .powerLoss ∉ ls)
    (hcall : store.step t₂ (.call call (some y)) t₃) (hw : call.target.isWhole = true)
    (hdir : call.target.dir = file.dir) (hrun' : store.Run t₃ ls' t₄) :
    ∃ more, t₄.files.read file = some ((t.files.read file).getD [] ++ data ++ more) := by
  have hsys := store_sys.reachable t h
  have hlog : file.isLog = true := hst.1
  have hheld : t₁.files.Held file ((t.files.read file).getD [] ++ data) := by
    obtain ⟨hc, -, -, pid, counter, hs⟩ := hst
    exact (call_done hsys hc hs).2.1
  obtain ⟨hsys₂, hheld₂⟩ := hrun.keeps
    (I := fun t' => Sys t' ∧ t'.files.Held file ((t.files.read file).getD [] ++ data)) ⟨hsys.step hst, hheld⟩
    fun s l s' hmem hI hstep => ⟨hI.1.step hstep, held_step hI.1 hstep hlog (fun he => hl (he ▸ hmem)) hI.2⟩
  have hbegins : t₃.files.Begins file ((t.files.read file).getD [] ++ data) :=
    ⟨settled_done hsys₂ hcall hw file hdir.symm, (extends_step hsys₂ hcall hlog).1 _ hheld₂⟩
  have hlast := hrun'.keeps
    (I := fun t' => Sys t' ∧ t'.files.Begins file ((t.files.read file).getD [] ++ data))
    ⟨hsys₂.step hcall, hbegins⟩ fun s l s' _ hI hstep => ⟨hI.1.step hstep, begins_step hI.1 hstep hlog hI.2⟩
  exact hlast.2.2.read

theorem append_lasts_raw : ∃ t t₁ t₂ t₃ call, store.Reachable t ∧
    store.step t (.call (.append raw ['x']) (some none)) t₁ ∧ store.step t₁ (.call call (some none)) t₂ ∧
    store.step t₂ .powerLoss t₃ ∧ ∃ more, t₃.files.read raw = some (['x'] ++ more) := by
  obtain ⟨-, hboth, -⟩ := calls_answer
  obtain ⟨⟨x, s⟩, hcalled, h⟩ := (Option.any_eq_true _ _).1 hboth
  obtain ⟨hx, h⟩ := Bool.and_eq_true_iff.1 h
  obtain ⟨⟨y, s'⟩, hcalled', hy⟩ := (Option.any_eq_true _ _).1 h
  obtain rfl : x = none := of_decide_eq_true hx
  obtain rfl : y = none := of_decide_eq_true hy
  have hst := called_step (.append raw ['x']) {} rfl hcalled
  have hst' := called_step (.write note ['y']) ⟨s, [], []⟩ ⟨rfl, by decide⟩ hcalled'
  exact ⟨_, _, _, _, _, reachable_start, hst, hst', lost_step _,
    append_lasts reachable_start hst (.nil _) (by simp) hst' rfl rfl (.cons (lost_step _) (.nil _))⟩

/-- And must be: the first call dies before it syncs the directory, the second finds the file and does not. -/
theorem append_lost : ∃ t t₁ t₂, store.Reachable t ∧ store.step t (.call (.append raw ['x']) (some none)) t₁ ∧
    store.step t₁ .powerLoss t₂ ∧ t₂.files.read raw = none := by
  obtain ⟨-, -, hcut, -⟩ := calls_answer
  obtain ⟨⟨x, s⟩, hcalled, h⟩ := (Option.any_eq_true _ _).1 hcut
  obtain ⟨rfl, hread⟩ : x = none ∧ s.lost.read raw = none := of_decide_eq_true h
  exact ⟨_, _, _, reachable_start.step (cut_step (.append raw ['w']) {} rfl 0 5),
    called_step (.append raw ['x']) ⟨_, [], []⟩ rfl hcalled, lost_step _, hread⟩

end CarbonRuntime.Stream.Writes
