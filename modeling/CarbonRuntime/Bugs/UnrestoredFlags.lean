import CarbonRuntime.Adapters.Email.Poll

/-!
# Flags that are not put back

Fetching a message marks it read, "so the caller reads the unseen set first and puts the flag back
afterwards" (adapters/email/curl.ts:192-195). `poll` puts the flags back once all is fetched and read
(index.ts:841): a fetch that fails, a mail that makes the reader throw, or a curl that is gone by
then end it before, and no fault names the messages that were fetched. The next poll finds them seen.

`unread_left_iff`: a mailbox is left as unread as it was exactly where nothing of that happens, or no
unseen message was fetched before it does.

Counterexample: two new messages, of which the second cannot be fetched.
-/

open CarbonRuntime.Core CarbonRuntime.Stream Utf16

namespace CarbonRuntime.Bugs.UnrestoredFlags

open Adapters.Email Mime Poll

variable {W : Where} {O : Outcomes} {read : Reader} {held : Option Watermark} {box box' : Mailbox}
  {uid uidvalidity : Nat} {uids : List Nat} {p : Plan}

/-! ## What is asked of a poll -/

/-- One of the faults names this message. -/
def Named (W : Where) (faults : List Fault) (uid : Nat) : Prop :=
  ∃ fault ∈ faults, fault.code = "UNREAD_FLAG_NOT_RESTORED" ∧
    ∃ uids, uid ∈ uids ∧ fault.subject = W.mailbox ++ " " ++ joinUids uids

/-- The faults of a poll that returns, or throws. -/
def faultsOf : Except Error Result → List Fault
  | .ok result => result.faults
  | .error (.transport faults) => faults
  | .error (.mime _) => []

/-- What was unseen is unseen again, or named; what was seen stays so. -/
structure LeavesUnread (W : Where) (box : Mailbox) (x : Except Error Result) (box' : Mailbox) : Prop where
  unseen : ∀ uid, seenOf box uid = some false →
    seenOf box' uid = some false ∨ Named W (faultsOf x) uid
  seen : ∀ uid, seenOf box uid = some true → seenOf box' uid = some true

/-! ## When it breaks -/

/-- The fetch of this message sets its flag. -/
def marks (O : Outcomes) (uid : Nat) : Bool :=
  match O.fetch uid with
  | none => true
  | some .absent => false
  | some (.exited ..) => O.marked uid

/-- The messages whose flag is set, up to the first fetch that fails. -/
def reached (O : Outcomes) : List Nat → List Nat
  | [] => []
  | uid :: uids =>
    (if marks O uid then [uid] else []) ++ if O.fetch uid = none then reached O uids else []

/-- A message as it is fetched. -/
def fetchOf (W : Where) (O : Outcomes) (uidvalidity uid : Nat) : Fetch :=
  ⟨{ mailbox := some W.mailbox, uidvalidity := some uidvalidity, uid := some uid
     position := positionOf uidvalidity uid, message := .error "" }, fetchMessage (O.content uid)⟩

/-- Every message is fetched and read or parked, and the flags can be put back. -/
structure Undisturbed (W : Where) (O : Outcomes) (read : Reader) (p : Plan) : Prop where
  fetch : ∀ uid ∈ p.uids, O.fetch uid = none
  reads : ∀ uid ∈ p.uids, ∃ r, read (fetchOf W O p.uidvalidity uid).item
    (fetchOf W O p.uidvalidity uid).rfc822 = .ok r
  store : O.store ≠ some .absent

/-- Where the poll comes to fetching, nothing disturbs it, or no unseen message is reached. -/
def Spared (W : Where) (O : Outcomes) (read : Reader) (held : Option Watermark) (box : Mailbox) : Prop :=
  ∀ p, plan W O held box = .ok p →
    Undisturbed W O read p ∨ ∀ uid ∈ reached O p.uids, seenOf box uid ≠ some false

/-! ## The flags -/

theorem seenOf_flagged (q : Nat → Bool) (seen : Bool) :
    seenOf (flagged box q seen) uid =
      if q uid then (seenOf box uid).map fun _ => seen else seenOf box uid := by
  unfold seenOf flagged
  rw [Table.find_mapRows]
  cases hf : box.find uid with
  | none => simp
  | some x =>
    obtain rfl := Table.find_key hf
    by_cases hq : q x.uid = true <;> simp [hq]

theorem mem_unseen : uid ∈ unseen box ↔ seenOf box uid = some false := by
  unfold unseen seenOf
  simp only [List.mem_map, List.mem_filter, Option.map_eq_some_iff, Bool.not_eq_true']
  constructor
  · rintro ⟨x, ⟨hx, hseen⟩, rfl⟩
    exact ⟨x, Table.mem_find hx, hseen⟩
  · rintro ⟨x, hx, hseen⟩
    exact ⟨x, ⟨Table.find_mem hx, hseen⟩, Table.find_key hx⟩

theorem fetched_eq : fetched O box uid = if marks O uid = true then flagged box (· = uid) true else box := by
  unfold fetched marks
  cases O.fetch uid with
  | none => rfl
  | some failure => cases failure <;> rfl

theorem seenOf_fetched (uid' : Nat) : seenOf (fetched O box uid) uid' =
    if uid' = uid ∧ marks O uid = true then (seenOf box uid').map fun _ => true else seenOf box uid' := by
  rw [fetched_eq]
  cases marks O uid with
  | true => simp only [if_true, seenOf_flagged, decide_eq_true_eq, and_true]
  | false => simp only [Bool.false_eq_true, and_false, if_false]

/-- The fetches set the flags of the messages they reach, and no other. -/
theorem fetchAll_seen (uid' : Nat) : seenOf (fetchAll W O uidvalidity uids box).2 uid' =
    if uid' ∈ reached O uids then (seenOf box uid').map fun _ => true else seenOf box uid' := by
  induction uids generalizing box with
  | nil => rfl
  | cons uid uids ih =>
    have hbox : (fetchAll W O uidvalidity (uid :: uids) box).2 =
        if O.fetch uid = none then (fetchAll W O uidvalidity uids (fetched O box uid)).2
        else fetched O box uid := by
      rw [fetchAll]
      cases O.fetch uid with
      | some failure => rfl
      | none => rfl
    have hseen : seenOf (fetchAll W O uidvalidity uids (fetched O box uid)).2 uid' = _ := ih
    rw [seenOf_fetched] at hseen
    rw [hbox, apply_ite (seenOf · uid'), hseen, seenOf_fetched, reached]
    by_cases hfetch : O.fetch uid = none
    · have hmarks : marks O uid = true := by simp [marks, hfetch]
      by_cases heq : uid' = uid
      · simp [hfetch, hmarks, heq]
      · simp [hfetch, hmarks, heq]
    · by_cases hmarks : marks O uid = true
      · by_cases heq : uid' = uid <;> simp [hfetch, hmarks, heq]
      · simp [hfetch, hmarks]

theorem reached_all (h : ∀ uid ∈ uids, O.fetch uid = none) : reached O uids = uids := by
  induction uids with
  | nil => rfl
  | cons uid uids ih =>
    have hfetch := h uid List.mem_cons_self
    rw [reached, if_pos hfetch, ih fun u hu => h u (List.mem_cons_of_mem _ hu)]
    simp [marks, hfetch]

theorem fetchAll_ok (h : ∀ uid ∈ uids, O.fetch uid = none) :
    (fetchAll W O uidvalidity uids box).1 = .ok (uids.map (fetchOf W O uidvalidity)) := by
  induction uids generalizing box with
  | nil => rfl
  | cons uid uids ih =>
    rw [fetchAll, h uid List.mem_cons_self]
    dsimp only
    rw [ih fun u hu => h u (List.mem_cons_of_mem _ hu)]
    rfl

theorem fetchAll_error (h : ¬ ∀ uid ∈ uids, O.fetch uid = none) :
    ∃ fault, (fetchAll W O uidvalidity uids box).1 = .error (.transport [fault]) ∧
      fault.code ≠ "UNREAD_FLAG_NOT_RESTORED" := by
  induction uids generalizing box with
  | nil => exact absurd (by simp) h
  | cons uid uids ih =>
    rw [fetchAll]
    cases hf : O.fetch uid with
    | some failure =>
      refine ⟨_, rfl, ?_⟩
      cases failure <;> simp [readFailed, curlMissing]
    | none =>
      rw [List.forall_mem_cons, not_and] at h
      have hrest : ∃ fault, (fetchAll W O uidvalidity uids (fetched O box uid)).1 =
          .error (.transport [fault]) ∧ fault.code ≠ "UNREAD_FLAG_NOT_RESTORED" := ih (h hf)
      obtain ⟨fault, he, hcode⟩ := hrest
      refine ⟨fault, ?_, hcode⟩
      dsimp only
      rw [he]
      rfl

/-! ## The poll -/

/-- The unseen messages a poll knows of are those of the mailbox. -/
theorem plan_unseen (h : plan W O held box = .ok p) (hne : p.uids ≠ []) : p.unseen = unseen box := by
  unfold plan at h
  simp only [bind, Except.bind, pure, Except.pure] at h
  cases hl : initialStatus W O statusAttempts 0 with
  | error e => simp [hl] at h
  | ok live =>
    cases hs : startOf W held live with
    | error e => simp [hl, hs] at h
    | ok start =>
      cases hq : searchUids W O box start.1 with
      | error e => simp [hl, hs, hq] at h
      | ok uids =>
        simp only [hl, hs, hq] at h
        by_cases hu : uids = []
        · simp only [hu, if_true, Except.ok.injEq] at h
          exact absurd (congrArg Plan.uids h).symm hne
        · simp only [if_neg hu, unseenUids] at h
          cases ho : O.unseen with
          | some failure => simp [ho] at h
          | none =>
            simp only [ho, Except.ok.injEq] at h
            exact (congrArg Plan.unseen h).symm

/-- The messages whose flag is to be taken off again. -/
theorem mem_restored (h : plan W O held box = .ok p) :
    uid ∈ p.uids.filter (p.unseen.contains ·) ↔ uid ∈ p.uids ∧ seenOf box uid = some false := by
  rw [List.mem_filter]
  refine and_congr_right fun hmem => ?_
  rw [plan_unseen h (List.ne_nil_of_mem hmem), List.contains_iff_mem, mem_unseen]

/-- A poll that throws once it has set flags names none of them. -/
theorem not_leaves {x : Except Error Result} (hmem : uid ∈ reached O p.uids)
    (hunseen : seenOf box uid = some false)
    (hbox : box' = (fetchAll W O p.uidvalidity p.uids box).2)
    (hfaults : ∀ fault ∈ faultsOf x, fault.code ≠ "UNREAD_FLAG_NOT_RESTORED") :
    ¬ LeavesUnread W box x box' := by
  intro h
  rcases h.unseen uid hunseen with hseen | ⟨fault, hfault, hcode, -⟩
  · rw [hbox, fetchAll_seen, if_pos hmem, hunseen] at hseen
    cases hseen
  · exact hfaults fault hfault hcode

/-- Where no unseen message is reached, the fetches leave every flag as it was. -/
theorem fetchAll_spared (h : ∀ uid ∈ reached O uids, seenOf box uid ≠ some false) (uid : Nat) :
    seenOf (fetchAll W O uidvalidity uids box).2 uid = seenOf box uid := by
  rw [fetchAll_seen]
  split
  · rename_i hmem
    cases hs : seenOf box uid with
    | none => rfl
    | some seen =>
      cases seen with
      | true => rfl
      | false => exact absurd hs (h uid hmem)
  · rfl

theorem leaves_of_same {x : Except Error Result} (h : ∀ uid, seenOf box' uid = seenOf box uid) :
    LeavesUnread W box x box' :=
  ⟨fun uid hu => .inl ((h uid).trans hu), fun uid hu => (h uid).trans hu⟩

theorem mapM_ok {α β ε : Type} {f : α → Except ε β} {l : List α} :
    (∃ r, l.mapM f = .ok r) ↔ ∀ a ∈ l, ∃ b, f a = .ok b := by
  induction l with
  | nil => simp [pure, Except.pure]
  | cons a l ih =>
    rw [List.mapM_cons, List.forall_mem_cons, ← ih]
    cases f a with
    | error e => simp [bind, Except.bind]
    | ok b => cases l.mapM f <;> simp [bind, Except.bind, pure, Except.pure]

/-- Putting the flags back: the ones that are owed come off, or a fault names them. -/
theorem restoreUnseen_ok {faults : List Fault}
    (h : restoreUnseen W O uids box = (.ok faults, box')) :
    (∀ uid ∉ uids, seenOf box' uid = seenOf box uid) ∧
      ∀ uid ∈ uids, seenOf box uid ≠ none → seenOf box' uid = some false ∨ Named W faults uid := by
  unfold restoreUnseen at h
  split at h
  · rename_i hnil
    cases h
    exact ⟨fun _ _ => rfl, fun uid hmem => absurd hmem (by simp [hnil])⟩
  · split at h
    · cases h
      refine ⟨fun uid hmem => by simp [seenOf_flagged, hmem], fun uid hmem hsome => .inl ?_⟩
      obtain ⟨seen, hseen⟩ := Option.ne_none_iff_exists'.1 hsome
      simp [seenOf_flagged, hmem, hseen]
    · cases h
    · cases h
      refine ⟨fun uid hmem => by simp [seenOf_flagged, hmem], fun uid hmem _ => .inr ?_⟩
      exact ⟨_, List.mem_singleton_self _, rfl, uids, hmem, rfl⟩

theorem leaves_restored (h : plan W O held box = .ok p) (hall : ∀ uid ∈ p.uids, O.fetch uid = none)
    {faults : List Fault} {items : List Fetch}
    (hr : restoreUnseen W O (p.uids.filter (p.unseen.contains ·))
      (fetchAll W O p.uidvalidity p.uids box).2 = (.ok faults, box')) :
    LeavesUnread W box (.ok ⟨items, p.uidvalidity, p.rescanned, p.fromUid, faults⟩) box' := by
  obtain ⟨hother, howed⟩ := restoreUnseen_ok hr
  refine ⟨fun uid hunseen => ?_, fun uid hseen => ?_⟩
  · by_cases hmem : uid ∈ p.uids
    · refine howed uid ((mem_restored h).2 ⟨hmem, hunseen⟩) ?_
      rw [fetchAll_seen, reached_all hall, if_pos hmem, hunseen]
      simp
    · refine .inl ?_
      rw [hother uid fun hr => hmem ((mem_restored h).1 hr).1, fetchAll_seen, reached_all hall,
        if_neg hmem, hunseen]
  · have hkept : uid ∉ p.uids.filter (p.unseen.contains ·) := fun hr => by
      rw [((mem_restored h).1 hr).2] at hseen
      cases hseen
    rw [hother uid hkept, fetchAll_seen, hseen]
    simp

/-- What a poll comes to once all is fetched. -/
theorem poll_fetched (h : plan W O held box = .ok p) (hall : ∀ uid ∈ p.uids, O.fetch uid = none) :
    poll W O read held box =
      let fetches := p.uids.map (fetchOf W O p.uidvalidity)
      let after := (fetchAll W O p.uidvalidity p.uids box).2
      match fetches.mapM fun x => read x.item x.rfc822 with
      | .error e => (.error (.mime e), after)
      | .ok _ =>
        match restoreUnseen W O (p.uids.filter (p.unseen.contains ·)) after with
        | (.error e, box) => (.error e, box)
        | (.ok faults, box) =>
          (.ok ⟨fetches, p.uidvalidity, p.rescanned, p.fromUid, faults⟩, box) := by
  have hfetch : fetchAll W O p.uidvalidity p.uids box =
      (.ok (p.uids.map (fetchOf W O p.uidvalidity)), (fetchAll W O p.uidvalidity p.uids box).2) :=
    Prod.ext (fetchAll_ok hall) rfl
  unfold poll
  rw [h]
  dsimp only
  rewrite [hfetch]
  rfl

/-- Where a fetch fails, the poll ends there. -/
theorem poll_failed (h : plan W O held box = .ok p) (hall : ¬ ∀ uid ∈ p.uids, O.fetch uid = none) :
    ∃ fault, fault.code ≠ "UNREAD_FLAG_NOT_RESTORED" ∧
      poll W O read held box =
        (.error (.transport [fault]), (fetchAll W O p.uidvalidity p.uids box).2) := by
  obtain ⟨fault, he, hcode⟩ : ∃ fault, (fetchAll W O p.uidvalidity p.uids box).1 =
      .error (.transport [fault]) ∧ fault.code ≠ "UNREAD_FLAG_NOT_RESTORED" := fetchAll_error hall
  have hfetch : fetchAll W O p.uidvalidity p.uids box =
      (.error (.transport [fault]), (fetchAll W O p.uidvalidity p.uids box).2) := Prod.ext he rfl
  refine ⟨fault, hcode, ?_⟩
  unfold poll
  rw [h]
  dsimp only
  rw [hfetch]

/-- Nothing is owed where no unseen message was reached. -/
theorem poll_spared (h : plan W O held box = .ok p)
    (hspared : ∀ uid ∈ reached O p.uids, seenOf box uid ≠ some false) :
    LeavesUnread W box (poll W O read held box).1 (poll W O read held box).2 := by
  refine leaves_of_same fun uid => ?_
  by_cases hall : ∀ uid ∈ p.uids, O.fetch uid = none
  · have hnone : p.uids.filter (p.unseen.contains ·) = [] := by
      refine List.eq_nil_iff_forall_not_mem.2 fun uid hmem => ?_
      obtain ⟨hin, hunseen⟩ := (mem_restored h).1 hmem
      rw [reached_all hall] at hspared
      exact hspared uid hin hunseen
    rw [poll_fetched h hall, hnone]
    dsimp only [restoreUnseen]
    split <;> exact fetchAll_spared hspared uid
  · obtain ⟨fault, -, hpoll⟩ := @poll_failed _ _ read _ _ _ h hall
    rw [hpoll]
    exact fetchAll_spared hspared uid

/-- Where one was reached, the flags come back only at the end of a poll that is not disturbed. -/
theorem poll_reached (h : plan W O held box = .ok p) (hmem : uid ∈ reached O p.uids)
    (hunseen : seenOf box uid = some false) :
    LeavesUnread W box (poll W O read held box).1 (poll W O read held box).2 ↔
      Undisturbed W O read p := by
  by_cases hall : ∀ uid ∈ p.uids, O.fetch uid = none
  · have howed : p.uids.filter (p.unseen.contains ·) ≠ [] :=
      List.ne_nil_of_mem ((mem_restored h).2 ⟨by rwa [reached_all hall] at hmem, hunseen⟩)
    have hmapM := mapM_ok (f := fun x : Fetch => read x.item x.rfc822)
      (l := p.uids.map (fetchOf W O p.uidvalidity))
    rw [List.forall_mem_map] at hmapM
    rw [poll_fetched h hall]
    dsimp only
    split
    · rename_i e heq
      refine iff_of_false (not_leaves hmem hunseen rfl (by simp [faultsOf])) fun hu => ?_
      obtain ⟨reads, hreads⟩ := hmapM.2 hu.reads
      rw [heq] at hreads
      cases hreads
    · rename_i reads heq
      split
      · rename_i e after hr
        -- Only a curl that is gone keeps the flags from being put back.
        unfold restoreUnseen at hr
        rw [if_neg howed] at hr
        split at hr
        · cases hr
        · rename_i habsent
          cases hr
          refine iff_of_false (not_leaves hmem hunseen rfl ?_) fun hu => hu.store habsent
          simp [faultsOf, curlMissing]
        · cases hr
      · rename_i faults after hr
        refine iff_of_true (leaves_restored h hall hr) ⟨hall, hmapM.1 ⟨reads, heq⟩, fun habsent => ?_⟩
        unfold restoreUnseen at hr
        rw [if_neg howed, habsent] at hr
        cases hr
  · obtain ⟨fault, hcode, hpoll⟩ := @poll_failed _ _ read _ _ _ h hall
    rw [hpoll]
    refine iff_of_false (not_leaves hmem hunseen rfl ?_) fun hu => hall hu.fetch
    simpa [faultsOf] using hcode

/-- For every mailbox, watermark, reader, and whatever becomes of each command. -/
theorem leaves_iff : LeavesUnread W box (poll W O read held box).1 (poll W O read held box).2 ↔
    Spared W O read held box := by
  unfold Spared
  cases hp : plan W O held box with
  | error e =>
    have hpoll : poll W O read held box = (.error e, box) := by simp only [poll, hp]
    rw [hpoll]
    exact iff_of_true (leaves_of_same fun _ => rfl) fun p h => nomatch h
  | ok p =>
    simp only [Except.ok.injEq, forall_eq']
    by_cases hspared : ∀ uid ∈ reached O p.uids, seenOf box uid ≠ some false
    · exact iff_of_true (poll_spared hp hspared) (.inr hspared)
    · simp only [not_forall, not_not] at hspared
      obtain ⟨uid, hmem, hunseen⟩ := hspared
      rw [poll_reached hp hmem hunseen]
      exact ⟨.inl, fun h => h.resolve_right fun hno => hno uid hmem hunseen⟩

variable {P : Platform} {stored : MimeAttachment → Attachment} {M : Mail} {J : Js} {d : Disk}
  {cap : Option Nat}

theorem unread_left_iff :
    LeavesUnread W box (poll W O (reader P stored M J d cap) held box).1
      (poll W O (reader P stored M J d cap) held box).2 ↔
    Spared W O (reader P stored M J d cap) held box := leaves_iff

/-! ## Two new messages -/

def twoLetters : Mailbox := (Table.empty.put ⟨1, false⟩).put ⟨2, false⟩

/-- The second one cannot be fetched. -/
def secondFails : Outcomes where
  status _ := .ok (some 7)
  search := none
  unseen := none
  fetch uid := if uid = 2 then some (.exited 56 "" false) else none
  marked _ := false
  content _ := []
  store := none
  restored _ := false

def nowhere : Where := ⟨"imap.example.test", "INBOX"⟩

/-- Whatever the reader would do. -/
theorem secondFails_poll (read : Reader) :
    seenOf (poll nowhere secondFails read none twoLetters).2 1 = some true ∧
      (faultsOf (poll nowhere secondFails read none twoLetters).1).map (·.code) = ["IMAP_READ_FAILED"] := by
  exact ⟨rfl, rfl⟩

/-- The first one stays read, and no fault names it. -/
theorem first_stays_seen : ¬ ∀ (W : Where) (O : Outcomes) (P : Platform)
    (stored : MimeAttachment → Attachment) (M : Mail) (J : Js) (d : Disk) (cap : Option Nat)
    (held : Option Watermark) (box : Mailbox),
    LeavesUnread W box (poll W O (reader P stored M J d cap) held box).1
      (poll W O (reader P stored M J d cap) held box).2 := by
  intro h
  obtain ⟨hseen, hcodes⟩ := secondFails_poll (reader ⟨id, fun _ => none⟩
    (fun a => ⟨"", text a.mime, 0, "", false, none, none⟩) { agent := "", account := "" }
    { parse _ := none, iso _ := "", localeCompare _ _ := .eq, sha256 _ := "", stringify := id } {} none)
  rcases (h nowhere secondFails _ _ _ _ _ _ none twoLetters).unseen 1 rfl with hunseen | ⟨fault, hf, hcode, -⟩
  · rw [hseen] at hunseen
    cases hunseen
  · have := List.mem_map_of_mem (f := Fault.code) hf
    rw [hcodes, hcode] at this
    exact absurd this (by decide)

end CarbonRuntime.Bugs.UnrestoredFlags
