import CarbonRuntime.Import.Corrections

/-!
# Messages of two chats under one id

`messageIndexOf` keys the messages of a ledger by their bare id (import/carbon-ledger-sqlite.ts:264), while the
store keys a message by its conversation. Where two conversations have an id in common, the later item takes
the place of the earlier one, and a correction of the earlier one is written beside the other conversation;
its own chat key is not asked for once a reference is found (import/ledger-corrections.ts:122-124).

Every item is in the index, and every correction lands where it belongs, exactly where no two
conversations have an id in common (`lands_iff`).

Counterexample: two chats with a message `1` each, and a correction of the first chat's.
-/

open CarbonRuntime.Core

namespace CarbonRuntime.Bugs.ShadowedMessage

open Import.Corrections

variable {placeOf : LedgerItem → String} {items : List LedgerItem} {chats : Option String → Option String}
  {index : MessageIndex} {corrections : List Correction} {c : Correction} {conv ref : String}

/-- The conversation has an item of the id. -/
def carries (placeOf : LedgerItem → String) (items : List LedgerItem) (conv ref : String) : Bool :=
  items.any fun item => item.messageId = ref ∧ placeOf item = conv

/-- A correction's reference is to the message of that id in this conversation: in its own chat where that
has one. -/
def names (placeOf : LedgerItem → String) (items : List LedgerItem) (chats : Option String → Option String)
    (c : Correction) (conv ref : String) : Bool :=
  carries placeOf items conv ref &&
    match chats c.chatKey with
    | some named => conv = named || !carries placeOf items named ref
    | none => true

/-- Its messages in a conversation. -/
def idsIn (placeOf : LedgerItem → String) (items : List LedgerItem) (chats : Option String → Option String)
    (c : Correction) (conv : String) : List String :=
  (c.messageRefs.filter (names placeOf items chats c conv)).map (conv ++ ":" ++ ·)

/-- It names a message that was imported. -/
def isLinked (items : List LedgerItem) (c : Correction) : Bool :=
  c.messageRefs.any fun ref => items.any (·.messageId = ref)

/-- How it is to stand in a conversation, if it is. -/
def placedIn (placeOf : LedgerItem → String) (items : List LedgerItem) (chats : Option String → Option String)
    (c : Correction) (conv : String) : Option PlacedCorrection :=
  let ids := idsIn placeOf items chats c conv
  if ids ≠ [] then some ⟨c, ids⟩
  else if isLinked items c = false ∧ chats c.chatKey = some conv then some ⟨c, []⟩
  else none

/-- Every item is in the index, and every correction is once in each conversation it belongs to, and
otherwise unlinked. -/
structure Lands (placeOf : LedgerItem → String) (items : List LedgerItem) (chats : Option String → Option String) :
    Prop where
  indexed : ∀ item ∈ items, messageIndexOf placeOf items item.messageId = some (foundOf placeOf item)
  apart : ∀ corrections,
    ((groupCorrections corrections (messageIndexOf placeOf items) chats).byConversation.map (·.1)).Nodup
  placed : ∀ corrections conv,
    valuesAt conv (groupCorrections corrections (messageIndexOf placeOf items) chats).byConversation =
      corrections.filterMap (placedIn placeOf items chats · conv)
  unlinked : ∀ corrections,
    (groupCorrections corrections (messageIndexOf placeOf items) chats).unlinked =
      (corrections.filter fun c => !isLinked items c && (chats c.chatKey).isNone).map (⟨·, []⟩)

/-! ## The index -/

theorem messageIndexOf_concat (item : LedgerItem) : messageIndexOf placeOf (items ++ [item]) ref =
    if ref = item.messageId then some (foundOf placeOf item) else messageIndexOf placeOf items ref := by
  simp [messageIndexOf]

/-- What the index finds is an item of that id. -/
theorem index_some {found : Found} (h : messageIndexOf placeOf items ref = some found) :
    ∃ item ∈ items, item.messageId = ref ∧ found = foundOf placeOf item := by
  induction items using List.reverseRecOn with
  | nil => cases h
  | append_singleton items item ih =>
    rw [messageIndexOf_concat] at h
    split at h
    · rename_i hid
      exact ⟨item, by simp, hid.symm, (Option.some.inj h).symm⟩
    · obtain ⟨i, hi, he⟩ := ih h
      exact ⟨i, List.mem_append_left _ hi, he⟩

theorem index_isSome {item : LedgerItem} (h : item ∈ items) :
    (messageIndexOf placeOf items item.messageId).isSome := by
  induction items using List.reverseRecOn with
  | nil => cases h
  | append_singleton items last ih =>
    rw [messageIndexOf_concat]
    split
    · rfl
    · rename_i hid
      refine ih ((List.mem_append.1 h).resolve_right fun hlast => hid ?_)
      rw [List.mem_singleton.1 hlast]

/-- No two conversations have an id in common. -/
def Unshared (placeOf : LedgerItem → String) (items : List LedgerItem) : Prop :=
  ∀ i ∈ items, ∀ j ∈ items, i.messageId = j.messageId → placeOf i = placeOf j

theorem index_eq (h : Unshared placeOf items) {item : LedgerItem} (hi : item ∈ items) :
    messageIndexOf placeOf items item.messageId = some (foundOf placeOf item) := by
  obtain ⟨found, hf⟩ := Option.isSome_iff_exists.1 (@index_isSome placeOf items item hi)
  obtain ⟨j, hj, hid, rfl⟩ := index_some hf
  rw [hf, foundOf, foundOf, hid, h j hj item hi hid]

theorem carries_iff : carries placeOf items conv ref = true ↔
    ∃ item ∈ items, item.messageId = ref ∧ placeOf item = conv := by
  simp [carries]

/-- The index finds the message of the one conversation that has it. -/
theorem index_iff (h : Unshared placeOf items) : messageIndexOf placeOf items ref = some ⟨conv, conv ++ ":" ++ ref⟩ ↔
    carries placeOf items conv ref = true := by
  rw [carries_iff]
  constructor
  · intro hf
    obtain ⟨item, hi, hid, he⟩ := index_some hf
    exact ⟨item, hi, hid, (congrArg Found.conversationId he).symm⟩
  · rintro ⟨item, hi, rfl, rfl⟩
    exact index_eq h hi

theorem names_eq (h : Unshared placeOf items) :
    names placeOf items chats c conv ref = carries placeOf items conv ref := by
  unfold names
  cases hcarries : carries placeOf items conv ref with
  | false => rfl
  | true =>
    cases hnamed : chats c.chatKey with
    | none => rfl
    | some named =>
      cases hother : carries placeOf items named ref with
      | false => simp [hother]
      | true =>
        obtain ⟨i, hi, hid, rfl⟩ := carries_iff.1 hcarries
        obtain ⟨j, hj, hjd, rfl⟩ := carries_iff.1 hother
        simp [h i hi j hj (hid.trans hjd.symm)]

/-! ## Where one correction lands -/

/-- The references that are found, with their conversations. -/
def pairs (index : MessageIndex) (c : Correction) : List (String × String) :=
  c.messageRefs.filterMap fun ref => (index ref).map fun found => (found.conversationId, found.messageId)

theorem values_pairs (h : Unshared placeOf items) :
    ((pairs (messageIndexOf placeOf items) c).filter fun p => p.1 = conv).map (·.2) =
      idsIn placeOf items chats c conv := by
  rw [idsIn, pairs]
  induction c.messageRefs with
  | nil => rfl
  | cons ref refs ih =>
    rw [List.filterMap_cons, List.filter_cons, names_eq h]
    cases hf : messageIndexOf placeOf items ref with
    | none =>
      have hno : carries placeOf items conv ref = false := by
        by_contra hc
        rw [(index_iff h).2 (by simpa using hc)] at hf
        cases hf
      simpa [hno] using ih
    | some found =>
      obtain ⟨item, hi, rfl, rfl⟩ := index_some hf
      by_cases hconv : placeOf item = conv
      · have hyes : carries placeOf items conv item.messageId = true := carries_iff.2 ⟨item, hi, rfl, hconv⟩
        simp [hyes, foundOf, hconv, ih]
      · have hno : carries placeOf items conv item.messageId = false := by
          by_contra hc
          rw [(index_iff h).2 (by simpa using hc)] at hf
          exact hconv (congrArg Found.conversationId (Option.some.inj hf)).symm
        simpa [hno, foundOf, hconv] using ih

theorem pairs_nil : pairs (messageIndexOf placeOf items) c = [] ↔ isLinked items c = false := by
  simp only [pairs, List.filterMap_eq_nil_iff, Option.map_eq_none_iff, isLinked, List.any_eq_false, List.any_eq_true,
    decide_eq_true_eq, not_exists, not_and]
  refine forall₂_congr fun ref _ => ⟨fun hnone item hi hid => ?_, fun hno => ?_⟩
  · have hsome := @index_isSome placeOf items item hi
    rw [hid, hnone] at hsome
    cases hsome
  · cases hf : messageIndexOf placeOf items ref with
    | none => rfl
    | some found =>
      obtain ⟨item, hi, hid, -⟩ := index_some hf
      exact absurd hid (hno item hi)

theorem placements_linked (h : isLinked items c = true) : placementsOf (messageIndexOf placeOf items) chats c =
    gather (pairs (messageIndexOf placeOf items) c) := by
  refine if_pos fun hnil => ?_
  have hp := pairs_nil.1 (gather_eq_nil.1 hnil)
  rw [h] at hp
  cases hp

theorem placements_unlinked (h : isLinked items c = false) : placementsOf (messageIndexOf placeOf items) chats c =
    ((chats c.chatKey).map fun named => (named, ([] : List String))).toList := by
  have hp := (@pairs_nil placeOf items c).2 h
  rw [pairs] at hp
  rw [placementsOf, hp]
  cases chats c.chatKey <;> rfl

/-- Where a correction is put, in one conversation. -/
theorem placements_eq (h : Unshared placeOf items) :
    (placementsOf (messageIndexOf placeOf items) chats c).filter (fun p => p.1 = conv) =
      ((placedIn placeOf items chats c conv).map fun placed => (conv, placed.messageIds)).toList := by
  have hids := @values_pairs placeOf items chats c conv h
  cases hl : isLinked items c with
  | true =>
    rw [placements_linked hl, placedIn, hl]
    by_cases hk : conv ∈ (pairs (messageIndexOf placeOf items) c).map (·.1)
    · rw [filter_key (keys_gather _) ((mem_keys_gather _).2 hk), valuesAt_gather, hids]
      have hne : idsIn placeOf items chats c conv ≠ [] := by
        obtain ⟨p, hp, he⟩ := List.mem_map.1 hk
        rw [← hids, Ne, List.map_eq_nil_iff, List.filter_eq_nil_iff]
        exact fun hno => hno p hp (by simpa using he)
      simp [hne]
    · have hnil : idsIn placeOf items chats c conv = [] := by
        rw [← hids, List.map_eq_nil_iff, List.filter_eq_nil_iff]
        exact fun p hp he => hk (List.mem_map.2 ⟨p, hp, by simpa using he⟩)
      have hno : (gather (pairs (messageIndexOf placeOf items) c)).filter (fun p => p.1 = conv) = [] :=
        List.filter_eq_nil_iff.2 fun g hg he =>
          hk ((mem_keys_gather _).1 (List.mem_map.2 ⟨g, hg, by simpa using he⟩))
      simp [hno, hnil]
  | false =>
    rw [pairs_nil.2 hl] at hids
    rw [placements_unlinked hl, placedIn, hl, ← hids]
    cases hn : chats c.chatKey with
    | none => simp
    | some named => by_cases he : named = conv <;> simp [he]

theorem placements_nil : placementsOf (messageIndexOf placeOf items) chats c = [] ↔
    isLinked items c = false ∧ (chats c.chatKey).isNone := by
  cases hl : isLinked items c with
  | true =>
    rw [placements_linked hl, gather_eq_nil, pairs_nil, hl]
    simp
  | false =>
    rw [placements_unlinked hl]
    cases chats c.chatKey <;> simp

/-! ## All corrections -/

theorem valuesAt_foldl {placed : List (String × List String)} {groups : List (String × List PlacedCorrection)} :
    valuesAt conv (placed.foldl (fun groups p => addAt p.1 ⟨c, p.2⟩ groups) groups) =
      valuesAt conv groups ++ (placed.filter fun p => p.1 = conv).map (⟨c, ·.2⟩) := by
  induction placed generalizing groups with
  | nil => simp
  | cons p placed ih =>
    rw [List.foldl_cons, ih, valuesAt_addAt, List.append_assoc]
    by_cases hp : p.1 = conv <;> simp [hp]

theorem nodup_foldl {placed : List (String × List String)} {groups : List (String × List PlacedCorrection)}
    (h : (groups.map (·.1)).Nodup) :
    ((placed.foldl (fun groups p => addAt p.1 ⟨c, p.2⟩ groups) groups).map (·.1)).Nodup := by
  induction placed generalizing groups with
  | nil => exact h
  | cons p placed ih =>
    refine ih ?_
    rw [keys_addAt]
    split
    · exact h
    · rename_i hp
      refine List.nodup_append.2 ⟨h, by simp, fun x hx y hy => ?_⟩
      rintro rfl
      exact hp (List.mem_singleton.1 hy ▸ hx)

theorem groupCorrections_concat : groupCorrections (corrections ++ [c]) index chats =
    groupOne index chats (groupCorrections corrections index chats) c := by
  simp [groupCorrections]

theorem groupOne_eq (grouped : Grouped) : groupOne index chats grouped c =
    ⟨(placementsOf index chats c).foldl (fun groups p => addAt p.1 ⟨c, p.2⟩ groups) grouped.byConversation,
      grouped.unlinked ++ if placementsOf index chats c = [] then [⟨c, []⟩] else []⟩ := by
  unfold groupOne
  dsimp only
  split
  · rename_i hnil
    rw [hnil]
    rfl
  · rw [List.append_nil]

/-- Where no two conversations have an id in common, every correction lands where it belongs; and only there
is every item in the index. -/
theorem lands_iff (placeOf : LedgerItem → String) (items : List LedgerItem)
    (chats : Option String → Option String) : Lands placeOf items chats ↔ Unshared placeOf items := by
  constructor
  · intro h i hi j hj hid
    have hfound := (h.indexed i hi).symm.trans (hid ▸ h.indexed j hj)
    exact congrArg Found.conversationId (Option.some.inj hfound)
  · intro h
    refine ⟨fun item => index_eq h, fun corrections => ?_, fun corrections conv => ?_, fun corrections => ?_⟩
    · induction corrections using List.reverseRecOn with
      | nil => exact List.nodup_nil
      | append_singleton corrections c ih =>
        rw [groupCorrections_concat, groupOne_eq]
        exact nodup_foldl ih
    · induction corrections using List.reverseRecOn with
      | nil => rfl
      | append_singleton corrections c ih =>
        rw [groupCorrections_concat, groupOne_eq, valuesAt_foldl, ih, placements_eq h, List.filterMap_append]
        cases hp : placedIn placeOf items chats c conv with
        | none => simp [hp]
        | some placed =>
          have hc : placed.correction = c := by
            unfold placedIn at hp
            dsimp only at hp
            split_ifs at hp <;> cases hp <;> rfl
          obtain ⟨_, ids⟩ := placed
          obtain rfl := hc
          simp [hp]
    · induction corrections using List.reverseRecOn with
      | nil => rfl
      | append_singleton corrections c ih =>
        rw [groupCorrections_concat, groupOne_eq, ih, List.filter_append, List.map_append]
        by_cases hp : placementsOf (messageIndexOf placeOf items) chats c = []
        · have hboth := placements_nil.1 hp
          simp [hp, hboth.1, hboth.2]
        · have hno : (!isLinked items c && (chats c.chatKey).isNone) = false := by
            by_contra hb
            exact hp (placements_nil.2 (by simpa using hb))
          simp [hp, hno]

/-- Two chats of one account, each a conversation. -/
def ownChat (item : LedgerItem) : String := item.chatJid

def kept : Correction :=
  { correctionId := some "k", kind := "reviewer_edit", at? := none, messageRefs := ["1"], chatKey := some "a" }

/-- Where only chat `a` has a message `1`, it is corrected there. -/
theorem one_chat_lands : Lands ownChat [⟨"1", "a"⟩, ⟨"2", "b"⟩] id :=
  (lands_iff _ _ _).2 (by simp [Unshared, ownChat])

/-- Where chat `b` has one too, a correction of the message in `a` is put there. -/
theorem correction_shadowed : ¬Lands ownChat [⟨"1", "a"⟩, ⟨"1", "b"⟩] id ∧
    (groupCorrections [kept] (messageIndexOf ownChat [⟨"1", "a"⟩, ⟨"1", "b"⟩]) id).byConversation =
      [("b", [⟨kept, ["b:1"]⟩])] :=
  ⟨fun h => absurd (h.placed [kept] "b") (by decide), by decide⟩

end CarbonRuntime.Bugs.ShadowedMessage
