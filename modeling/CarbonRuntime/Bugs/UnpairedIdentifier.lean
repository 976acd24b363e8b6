import CarbonRuntime.Stream.Places

/-!
# Two identifiers under one name

An identifier is spelled by its bytes, and `Buffer.from(raw, 'utf8')` makes a replacement character of a half
of a pair that stands without the other (stream/encode.ts:88-99). So the identifier reads back as another one,
and two identifiers that differ only there have one name.

The paths lie below the captures (`files_inside`). Two records' paths are apart exactly where the records still
differ once such halves are replaced (`apart_iff`), and a spelled component reads back exactly where it is of
whole code points (`decode_iff`).

Counterexample: the messages `U+D800` and `U+FFFD`.
-/

open CarbonRuntime.Core Utf16 Paths

namespace CarbonRuntime.Bugs.UnpairedIdentifier

open Stream.Encode Stream.Places

variable {N : Type} [DecidableEq N] {K : Crypto} {M : Numbers N} {store : Path} {a b : Identity N}
  {p q : RecordPaths}

/-! ## What paths have to keep -/

/-- Every file lies below the directory of the captures. -/
def Inside (store : Path) (p : RecordPaths) : Prop :=
  ∃ captures, resolveUnderStore store [ofString "captures"] = .ok captures ∧
    ∀ f ∈ p.files, captures ++ [slash] <+: f

/-- No file of the one is a file of the other, or a directory that the other's files are in. -/
def Apart (p q : RecordPaths) : Prop :=
  ∀ f ∈ p.files, ∀ g ∈ q.files, f ≠ g ∧ ¬ f ++ [slash] <+: g ∧ ¬ g ++ [slash] <+: f ∧
    f ≠ q.conversationDir ∧ g ≠ p.conversationDir

/-- The components of a record's path. -/
def components (i : Identity N) : List Text := [i.conversationId, i.messageId]

/-- Every component that is not hashed reads back. -/
def ReadsBack (K : Crypto) (i : Identity N) : Prop :=
  ∀ s ∈ components i, (spell s).length ≤ 200 → decodeComponent (encodeComponent K s) = some s

/-- What tells a record from others, halves without the other replaced. -/
def replacedKey (M : Numbers N) (i : Identity N) : Text × Text × N :=
  (replaced i.conversationId, replaced i.messageId, i.number M)

/-! ## When they do -/

theorem files_inside (h : paths K M store a = .ok p) : Inside store p := by
  obtain ⟨hroot, dir, -, hdir, hfiles⟩ := paths_ok h
  obtain ⟨c, hc, hcnames⟩ := @resolveUnderStore_ok store [ofString "captures"] (by decide) (by simp) hroot
  have hne : c ≠ .root := by
    rintro rfl
    have := congrArg List.length hcnames
    simp [Path.root] at this
  refine ⟨c.text, hc, fun f hf => ?_⟩
  obtain ⟨e, -, r, rfl, hr⟩ := (hfiles f).1 hf
  refine (Path.slash_prefix_iff hne).2 ⟨encodeComponent K a.conversationId,
    [stem K M a.messageId (a.number M) ++ dot :: e], ?_⟩
  rw [hr, hdir, hcnames]
  simp

/-- The files of two records: one of the one and one of the other are the same exactly where the records are,
halves replaced, and the suffixes. -/
theorem file_eq_iff (hc : Free K a.conversationId b.conversationId) (hm : Free K a.messageId b.messageId)
    {e e' : Text} (he : e ∈ suffixes) (he' : e' ∈ suffixes) :
    [ofString "captures", encodeComponent K a.conversationId, stem K M a.messageId (a.number M) ++ dot :: e] =
        [ofString "captures", encodeComponent K b.conversationId, stem K M b.messageId (b.number M) ++ dot :: e'] ↔
      replacedKey M a = replacedKey M b ∧ e = e' := by
  simp only [List.cons.injEq, true_and, and_true, replacedKey, Prod.mk.injEq, replaced_inj,
    encodeComponent_inj hc, stem_inj he he' hm, and_assoc]

theorem apart_iff (ha : paths K M store a = .ok p) (hb : paths K M store b = .ok q)
    (hc : Free K a.conversationId b.conversationId) (hm : Free K a.messageId b.messageId) :
    Apart p q ↔ replacedKey M a ≠ replacedKey M b := by
  obtain ⟨-, dir, hpdir, hdir, hp⟩ := paths_ok ha
  obtain ⟨-, dir', hqdir, hdir', hq⟩ := paths_ok hb
  constructor
  · intro h hkey
    have hjson : ofString "json" ∈ suffixes := by decide
    have hf : p.record ∈ p.files := List.mem_cons_self
    obtain ⟨e, he, r, hr, hnames⟩ := (hp p.record).1 hf
    have hg : p.record ∈ q.files := by
      refine (hq p.record).2 ⟨e, he, r, hr, ?_⟩
      have heq := (file_eq_iff (a := a) (b := b) (M := M) hc hm he he).2 ⟨hkey, rfl⟩
      simp only [List.cons.injEq, true_and, and_true] at heq
      rw [hnames, hdir, hdir', heq.1, heq.2]
    exact (h _ hf _ hg).1 rfl
  · intro hkey f hf g hg
    obtain ⟨e, he, r, rfl, hr⟩ := (hp f).1 hf
    obtain ⟨e', he', r', rfl, hr'⟩ := (hq g).1 hg
    have hlength : r.names.length = store.names.length + 3 := by simp [hr, hdir]
    have hlength' : r'.names.length = store.names.length + 3 := by simp [hr', hdir']
    have hnot : ∀ {x y : Path}, x.names.length = store.names.length + 3 → y.names.length = store.names.length + 3 →
        ¬ x.text ++ [slash] <+: y.text := by
      intro x y hx hy hpre
      have hroot : x ≠ .root := by
        rintro rfl
        simp [Path.root] at hx
      obtain ⟨s, t, hst⟩ := (Path.slash_prefix_iff hroot).1 hpre
      have := congrArg List.length hst
      simp [hx, hy] at this
    have hdirs : ∀ {x y : Path}, x.names.length = store.names.length + 3 → y.names.length = store.names.length + 2 →
        x.text ≠ y.text := by
      intro x y hx hy hxy
      rw [Path.text_inj.1 hxy] at hx
      omega
    refine ⟨fun h => hkey ?_, hnot hlength hlength', hnot hlength' hlength, ?_, ?_⟩
    · have hnames := congrArg Path.names (Path.text_inj.1 h)
      rw [hr, hr', hdir, hdir', List.append_assoc, List.append_assoc] at hnames
      exact ((file_eq_iff hc hm he he').1 (List.append_cancel_left hnames)).1
    · rw [hqdir]
      exact hdirs hlength (by simp [hdir'])
    · rw [hpdir]
      exact hdirs hlength' (by simp [hdir])

theorem decode_iff {s : Text} (h : (spell s).length ≤ 200) :
    decodeComponent (encodeComponent K s) = some s ↔ Whole s := by
  rw [encodeComponent, if_neg (Nat.not_lt.2 h), decodeComponent_spell, Option.some_inj, replaced_eq_iff]

/-- The paths of two records are as they have to be exactly where the records, if they differ, still differ with
every half that has no other replaced, and the components that are not hashed are of whole code points. -/
theorem paths_iff (ha : paths K M store a = .ok p) (hb : paths K M store b = .ok q)
    (hc : Free K a.conversationId b.conversationId) (hm : Free K a.messageId b.messageId) :
    (Inside store p ∧ (a.key M ≠ b.key M → Apart p q) ∧ ReadsBack K a) ↔
      (a.key M ≠ b.key M → replacedKey M a ≠ replacedKey M b) ∧
        ∀ s ∈ components a, (spell s).length ≤ 200 → Whole s := by
  have hback : ReadsBack K a ↔ ∀ s ∈ components a, (spell s).length ≤ 200 → Whole s :=
    forall_congr' fun s => imp_congr_right fun _ => imp_congr_right fun h => decode_iff h
  rw [hback, apart_iff ha hb hc hm]
  exact and_iff_right (files_inside ha)

/-! ## Records in the store `/s` -/

def message (id : Text) : Identity (Fin 10) := ⟨ofString "c", id, none⟩

/-- The paths of the messages `m` and `m.1` are apart. -/
theorem revision_apart : ∃ p q, paths digits oneDigit smallStore (message (ofString "m")) = .ok p ∧
    paths digits oneDigit smallStore (message (ofString "m.1")) = .ok q ∧
    Inside smallStore p ∧ Apart p q ∧ ReadsBack digits (message (ofString "m")) := by
  obtain ⟨p, hp⟩ : ∃ p, paths digits oneDigit smallStore (message (ofString "m")) = .ok p := ⟨_, rfl⟩
  obtain ⟨q, hq⟩ : ∃ q, paths digits oneDigit smallStore (message (ofString "m.1")) = .ok q := ⟨_, rfl⟩
  obtain ⟨hinside, hapart, hback⟩ := (paths_iff hp hq (fun _ => rfl) (fun h => by revert h; decide)).2
    ⟨fun _ => by decide, by decide⟩
  exact ⟨p, q, hp, hq, hinside, hapart (by decide), hback⟩

/-- One path for two messages, and the first of them reads back as the second. -/
theorem half_misplaced : ∃ p, paths digits oneDigit smallStore (message [0xd800]) = .ok p ∧
    paths digits oneDigit smallStore (message [0xfffd]) = .ok p ∧
    (message [0xd800]).key oneDigit ≠ (message [0xfffd]).key oneDigit ∧
    decodeComponent (encodeComponent digits [0xd800]) = some [0xfffd] := by
  refine ⟨_, rfl, by decide +kernel, by decide, ?_⟩
  have hspell : encodeComponent digits [0xd800] = spell [0xd800] := by decide
  rw [hspell, decodeComponent_spell]
  decide

end CarbonRuntime.Bugs.UnpairedIdentifier
