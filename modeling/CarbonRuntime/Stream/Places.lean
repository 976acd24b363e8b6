import CarbonRuntime.Stream.Encode

/-!
# Where a record lies (stream/store.ts:256-277, stream/encode.ts:106-117)

A record, its raw payload and its attachments lie in the directory of its conversation, under one stem: the
encoded message id, and behind a dot the revision, where there is one.

**Results.** What `paths` derives are three names in the conversation's directory (`paths_ok`), and such a
name tells the message, the revision and the suffix (`stem_inj`).
-/

open CarbonRuntime.Core Utf16 Paths Splitting

namespace CarbonRuntime.Stream.Places

open Encode

/-- The numbers a revision can be, one for each that `===` tells apart, and how a template writes them. -/
structure Numbers (N : Type) where
  zero : N
  text : N → Text
  text_inj : ∀ n m, text n = text m → n = m
  no_slash : ∀ n, slash ∉ text n

structure Identity (N : Type) where
  conversationId : Text
  messageId : Text
  revision : Option N := none

structure RecordPaths where
  conversationDir : Text
  record : Text
  raw : Text
  attachments : Text
deriving DecidableEq

/-- What is written of a record. -/
def RecordPaths.files (p : RecordPaths) : List Text := [p.record, p.raw, p.attachments]

inductive Refusal
  | stream (faults : List Fault)
  /-- An `Error` with this message. -/
  | outside (message : Text)
deriving DecidableEq

/-- The revisions of one digit. -/
def oneDigit : Numbers (Fin 10) where
  zero := 0
  text n := [.ofNat (0x30 + n)]
  text_inj := by decide
  no_slash := by decide

/-- The store `/s`. -/
def smallStore : Path := Path.root.push (ofString "s") (by decide)

variable {N : Type} [DecidableEq N] (K : Crypto) (M : Numbers N)

def resolveUnderStore (store : Path) (components : List Text) : Except Refusal Text :=
  let resolved := (store.resolve components).text
  if resolved ≠ store.text ∧ ¬ store.text ++ [slash] <+: resolved then
    .error (.outside (resolved ++ ofString " falls outside the store at " ++ store.text))
  else .ok resolved

/-- `record.revision ?? 0` -/
def Identity.number (i : Identity N) : N := i.revision.getD M.zero

/-- What tells a record from others. -/
def Identity.key (i : Identity N) : Text × Text × N := (i.conversationId, i.messageId, i.number M)

def stem (messageId : Text) (revision : N) : Text :=
  let message := encodeComponent K messageId
  if revision = M.zero then message else message ++ dot :: M.text revision

def paths (store : Path) (record : Identity N) : Except Refusal RecordPaths :=
  let faults := Encode.componentFaults K "conversation_id" record.conversationId ++
    Encode.componentFaults K "message_id" record.messageId
  if faults ≠ [] then .error (.stream faults)
  else do
    let dir ← resolveUnderStore store [ofString "captures", encodeComponent K record.conversationId]
    let stem := stem K M record.messageId (record.number M)
    pure {
      conversationDir := dir
      record := Path.join dir (stem ++ ofString ".json")
      raw := Path.join dir (stem ++ ofString ".raw")
      attachments := Path.join dir (stem ++ ofString ".attachments") }

variable {K} {M} {store : Path} {a b : Identity N} {p q : RecordPaths}

/-! ## What is derived -/

theorem resolve_ne {l : List Text} (hl : ∀ s ∈ l, IsName s) (hne : l ≠ []) :
    (store.resolve l).text ≠ store.text := by
  intro he
  have hnames := Path.resolve_names (p := store) hl
  rw [Path.text_inj.1 he] at hnames
  exact hne (by simpa using hnames)

/-- Names are resolved below the store, wherever it is but at the root. -/
theorem resolveUnderStore_ok {l : List Text} (hl : ∀ s ∈ l, IsName s) (hne : l ≠ []) (hroot : store ≠ .root) :
    ∃ r : Path, resolveUnderStore store l = .ok r.text ∧ r.names = store.names ++ l := by
  have hnames := Path.resolve_names (p := store) hl
  obtain ⟨s, t, rfl⟩ := List.exists_cons_of_ne_nil hne
  exact ⟨_, if_neg fun h => h.2 ((Path.slash_prefix_iff hroot).2 ⟨s, t, hnames⟩), hnames⟩

theorem resolveUnderStore_names {l : List Text} {f : Text} (hl : ∀ s ∈ l, IsName s) (hne : l ≠ [])
    (h : resolveUnderStore store l = .ok f) :
    store ≠ .root ∧ ∃ r : Path, f = r.text ∧ r.names = store.names ++ l := by
  rw [resolveUnderStore] at h
  split at h
  · cases h
  · rename_i hin
    simp only [not_and, not_not] at hin
    refine ⟨?_, _, (Except.ok.inj h).symm, Path.resolve_names hl⟩
    rintro rfl
    exact Path.not_root_prefix (hin (resolve_ne hl hne))

/-- The suffixes of a record's three files. -/
def suffixes : List Text := [ofString "json", ofString "raw", ofString "attachments"]

theorem suffixes_plain : ∀ e ∈ suffixes, dot ∉ e ∧ slash ∉ e := by decide

/-- The name tells the message, the revision and the suffix. -/
theorem stem_inj {m m' : Text} {n n' : N} {e e' : Text} (he : e ∈ suffixes) (he' : e' ∈ suffixes)
    (hfree : Free K m m') : stem K M m n ++ dot :: e = stem K M m' n' ++ dot :: e' ↔
      chars m = chars m' ∧ n = n' ∧ e = e' := by
  have hplain : ∀ m : Text, dot ∉ encodeComponent K m := fun m h => (encodeComponent_plain h).1 rfl
  have hlast := last_inj (a := stem K M m n) (b := stem K M m' n') (suffixes_plain e he).1
    (suffixes_plain e' he').1
  rw [hlast]
  constructor
  · rintro ⟨hstem, rfl⟩
    unfold stem at hstem
    dsimp only at hstem
    split at hstem <;> split at hstem
    · rename_i hn hn'
      exact ⟨(encodeComponent_inj hfree).1 hstem, hn.trans hn'.symm, rfl⟩
    · exact absurd (by rw [hstem]; simp) (hplain m)
    · exact absurd (by rw [← hstem]; simp) (hplain m')
    · obtain ⟨hm, hn⟩ := (first_inj (hplain m) (hplain m')).1 hstem
      exact ⟨(encodeComponent_inj hfree).1 hm, M.text_inj _ _ hn, rfl⟩
  · rintro ⟨hm, rfl, rfl⟩
    rw [stem, stem, (encodeComponent_inj hfree).2 hm]
    exact ⟨rfl, rfl⟩

theorem stem_name {m e : Text} {n : N} (he : e ∈ suffixes) : IsName (stem K M m n ++ dot :: e) := by
  have hslash : slash ∉ stem K M m n := by
    have henc : slash ∉ encodeComponent K m := fun h => (encodeComponent_plain h).2 rfl
    unfold stem
    dsimp only
    split
    · exact henc
    · simp only [List.mem_append, List.mem_cons, not_or]
      exact ⟨henc, by decide, M.no_slash n⟩
  have hlong : ∀ e ∈ suffixes, 3 ≤ e.length := by decide
  have hlength := hlong e he
  refine ⟨by simp, ?_, fun h => ?_, fun h => ?_⟩
  · simp only [List.mem_append, List.mem_cons, not_or]
    exact ⟨hslash, by decide, (suffixes_plain e he).2⟩
  all_goals
    have := congrArg List.length h
    simp at this
    omega

theorem paths_ok (h : paths K M store a = .ok p) :
    store ≠ .root ∧ ∃ dir : Path, p.conversationDir = dir.text ∧
      dir.names = store.names ++ [ofString "captures", encodeComponent K a.conversationId] ∧
      ∀ f, f ∈ p.files ↔ ∃ e ∈ suffixes, ∃ r : Path, f = r.text ∧
        r.names = dir.names ++ [stem K M a.messageId (a.number M) ++ dot :: e] := by
  unfold paths at h
  dsimp only at h
  split at h
  · cases h
  rename_i hfaults
  obtain ⟨hc, -⟩ := List.append_eq_nil_iff.1 (not_not.1 hfaults)
  have hconv := ne_nil_of_accepted hc
  cases hdir : resolveUnderStore store [ofString "captures", encodeComponent K a.conversationId] with
  | error e =>
    rw [hdir] at h
    cases h
  | ok d =>
    rw [hdir] at h
    have hp := Except.ok.inj h
    obtain ⟨hroot, dir, rfl, hnames⟩ := resolveUnderStore_names (by
      intro s hs
      simp only [List.mem_cons, List.not_mem_nil, or_false] at hs
      rcases hs with rfl | rfl
      · decide
      · exact encodeComponent_name hconv) (by simp) hdir
    refine ⟨hroot, dir, by rw [← hp], hnames, fun f => ?_⟩
    have hfiles : p.files = suffixes.map fun e =>
        Path.join dir.text (stem K M a.messageId (a.number M) ++ dot :: e) := by
      rw [← hp]
      rfl
    rw [hfiles, List.mem_map]
    refine exists_congr fun e => and_congr_right fun he => ?_
    rw [Path.join_text (stem_name he)]
    constructor
    · exact fun h => ⟨_, h.symm, rfl⟩
    · rintro ⟨r, rfl, hr⟩
      exact (congrArg Path.text (Path.ext_names hr)).symm

end CarbonRuntime.Stream.Places
