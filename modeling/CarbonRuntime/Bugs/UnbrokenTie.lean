import CarbonRuntime.Import.Outbound
import CarbonRuntime.Runtime.Grouping

/-!
# Two marks that no id tells apart

`ordered` sorts the marks of a kind by their times and breaks a tie by `localeCompare` of their ids
(import/outbound-link.ts:33-40). That calls different ids equal where they are written in equivalent
ways, an accent composed or not. Two such marks of one moment are then taken in the order in which the
sources gave them, so two runs over the same sources may join them to different sends.

The join keeps every mark, each in one place (`Conserves`), for every list. Where no two marks of a kind and
a moment are so alike it is the same for every order of the list; and where two events are, or two marks that
the same sends may take, it is not (`join_conserves`).

Counterexample: two events of one moment, of which the id of one has an `é` and that of the other an `e` and
the accent after it.
-/

open CarbonRuntime.Core CarbonRuntime.Stream

namespace CarbonRuntime.Bugs.UnbrokenTie

open Import.Outbound

variable {J : Js} {tolerance : Rat} {kind : SourceKind} {item : OutboundItem} {items items' : List OutboundItem}
  {pool pool' before : List Send} {send : Send} {counts : KindCounts}

/-! ## What the join is to keep -/

/-- The marks of a send. -/
def marks (send : Send) : List OutboundItem :=
  send.item :: (send.attached.turn.toList ++ send.attached.audit.toList)

/-- A mark in its slot: of another kind than the send itself, of its conversation and near it in time. -/
structure Fits (J : Js) (tolerance : Rat) (send : Send) (kind : SourceKind) (mark : OutboundItem) : Prop where
  own : mark.kind = kind
  other : send.item.kind ≠ kind
  conversation : mark.conversationId = send.item.conversationId
  near : ∃ time theirs, millisOf J mark = some time ∧ millisOf J send.item = some theirs ∧
    ((theirs - time).natAbs : Rat) ≤ tolerance

def AllFit (J : Js) (tolerance : Rat) (pool : List Send) : Prop :=
  ∀ send ∈ pool, ∀ kind mark, send.attached.get kind = some mark → Fits J tolerance send kind mark

/-- A mark that is placed: to a send of which none of those that may take it is nearer, or as a send of
its own where none may take it. -/
inductive Placed (J : Js) (tolerance : Rat) (kind : SourceKind) (pool : List Send) (item : OutboundItem) :
    List Send → Prop
  | alone (method : String) : (∀ send ∈ pool, deltaOf J send item kind tolerance = none) →
      Placed J tolerance kind pool item (pool ++ [sendFor item method])
  | joined (front back : List Send) (send : Send) (delta : Nat) (link : Link) : pool = front ++ send :: back →
      deltaOf J send item kind tolerance = some delta →
      (∀ other ∈ pool, ∀ d, deltaOf J other item kind tolerance = some d → delta ≤ d) →
      Placed J tolerance kind pool item (front ++ attach send kind item link :: back)

/-! ## One mark -/

/-- The best of the sends there are: none where none may do, and else one that may and is as near as any. -/
def Nearest (J : Js) (item : OutboundItem) (kind : SourceKind) (tolerance : Rat) (pool : List Send) :
    Option Best → Prop
  | none => ∀ send ∈ pool, deltaOf J send item kind tolerance = none
  | some best => pool[best.index]? = some best.send ∧ deltaOf J best.send item kind tolerance = some best.delta ∧
      ∀ other ∈ pool, ∀ d, deltaOf J other item kind tolerance = some d → best.delta ≤ d

theorem beats_le {delta : Nat} {best : Best} : beats send delta (some best) = true → delta ≤ best.delta := by
  simp only [beats, decide_eq_true_eq]
  omega

theorem beats_not {delta : Nat} {best : Best} : beats send delta (some best) = false → best.delta ≤ delta := by
  simp only [beats, decide_eq_false_iff_not, not_or, Nat.not_lt]
  exact fun h => h.1

theorem nearest_skip {best : Option Best} (h : Nearest J item kind tolerance before best)
    (hd : deltaOf J send item kind tolerance = none) : Nearest J item kind tolerance (before ++ [send]) best := by
  cases best with
  | none =>
    intro other ho
    obtain ho | ho := List.mem_append.1 ho
    · exact h other ho
    · rwa [List.mem_singleton.1 ho]
  | some best =>
    obtain ⟨hget, hdelta, hmin⟩ := h
    obtain ⟨hi, -⟩ := List.getElem?_eq_some_iff.1 hget
    refine ⟨by rwa [List.getElem?_append_left hi], hdelta, fun other ho d hd' => ?_⟩
    obtain ho | ho := List.mem_append.1 ho
    · exact hmin other ho d hd'
    · rw [List.mem_singleton.1 ho, hd] at hd'
      cases hd'

theorem nearest_take {best : Option Best} {delta : Nat} (h : Nearest J item kind tolerance before best)
    (hd : deltaOf J send item kind tolerance = some delta) : Nearest J item kind tolerance (before ++ [send])
      (if beats send delta best then some ⟨before.length, send, delta⟩ else best) := by
  cases hb : beats send delta best with
  | true =>
    rw [if_pos rfl]
    refine ⟨by simp, hd, fun other ho d hd' => ?_⟩
    obtain ho | ho := List.mem_append.1 ho
    · cases best with
      | none => simp [h other ho] at hd'
      | some best => exact (beats_le hb).trans (h.2.2 other ho d hd')
    · rw [List.mem_singleton.1 ho, hd] at hd'
      exact Nat.le_of_eq (Option.some.inj hd')
  | false =>
    rw [if_neg Bool.false_ne_true]
    cases best with
    | none => cases hb
    | some best =>
      obtain ⟨hget, hdelta, hmin⟩ := h
      obtain ⟨hi, -⟩ := List.getElem?_eq_some_iff.1 hget
      refine ⟨by rwa [List.getElem?_append_left hi], hdelta, fun other ho d hd' => ?_⟩
      obtain ho | ho := List.mem_append.1 ho
      · exact hmin other ho d hd'
      · rw [List.mem_singleton.1 ho, hd] at hd'
        exact Option.some.inj hd' ▸ beats_not hb

theorem nearestFrom_nearest {n : Nat} {best : Option Best} (h : Nearest J item kind tolerance before best) :
    Nearest J item kind tolerance (before ++ pool)
      (nearestFrom J item kind tolerance before.length pool (best, n)).1 := by
  induction pool generalizing before best n with
  | nil => simpa [nearestFrom] using h
  | cons send pool ih =>
    have hlen : before.length + 1 = (before ++ [send]).length := by simp
    rw [nearestFrom, hlen, List.append_cons before send pool]
    cases hd : deltaOf J send item kind tolerance with
    | none => exact ih (nearest_skip h hd)
    | some delta => exact ih (nearest_take h hd)

theorem split_set {i : Nat} (h : pool[i]? = some send) : ∃ front back, pool = front ++ send :: back ∧
    ∀ other, pool.set i other = front ++ other :: back := by
  obtain ⟨hi, rfl⟩ := List.getElem?_eq_some_iff.1 h
  have hset : ∀ other, pool.set i other = pool.take i ++ other :: pool.drop (i + 1) := fun other => by
    rw [List.set_eq_take_append_cons_drop, if_pos hi]
  refine ⟨pool.take i, pool.drop (i + 1), ?_, hset⟩
  rw [← hset, List.set_getElem_self]

/-- What placing a mark makes of the sends. -/
theorem placeOne_placed : Placed J tolerance kind pool item (placeOne J kind tolerance pool counts item).1 := by
  have hnearest := @nearestFrom_nearest J tolerance kind item pool [] 0 none (by simp [Nearest])
  rw [List.nil_append, List.length_nil] at hnearest
  unfold placeOne nearestSend
  rcases hf : nearestFrom J item kind tolerance 0 pool (none, 0) with ⟨_ | best, candidates⟩
  · rw [hf] at hnearest
    exact .alone _ hnearest
  · rw [hf] at hnearest
    obtain ⟨hget, hdelta, hmin⟩ := hnearest
    obtain ⟨front, back, hpool, hset⟩ := split_set hget
    dsimp only
    rw [hset]
    exact .joined front back _ _ _ hpool hdelta hmin

theorem placeOne_counts : (placeOne J kind tolerance pool counts item).2.seen = counts.seen + 1 ∧
    ((placeOne J kind tolerance pool counts item).2.joined + (placeOne J kind tolerance pool counts item).2.alone =
      counts.joined + counts.alone + 1) := by
  unfold placeOne
  split
  · exact ⟨rfl, by dsimp only; omega⟩
  · exact ⟨rfl, by dsimp only; omega⟩

/-- What a send that may take a mark is like. -/
theorem deltaOf_some {delta : Nat} (h : deltaOf J send item kind tolerance = some delta) :
    send.attached.get kind = none ∧ (item.kind = kind → Fits J tolerance send kind item) := by
  unfold deltaOf at h
  split at h
  · rename_i time theirs htime htheirs
    dsimp only at h
    split_ifs at h with hno
    simp only [not_or, not_not] at hno
    obtain ⟨hconv, hkind, hfree, hnear⟩ := hno
    refine ⟨by simpa using hfree, fun hown => ⟨hown, hkind, hconv.symm, time, theirs, htime, htheirs, ?_⟩⟩
    exact Rat.not_lt.1 hnear
  · cases h

theorem marks_attach {link : Link} (hkind : kind ≠ .event) (hfree : send.attached.get kind = none) :
    (marks (attach send kind item link)).Perm (item :: marks send) := by
  obtain ⟨own, ⟨turn, audit⟩, links⟩ := send
  cases kind with
  | event => exact absurd rfl hkind
  | turn =>
    obtain rfl : turn = none := hfree
    exact List.Perm.swap _ _ _
  | audit =>
    obtain rfl : audit = none := hfree
    show (own :: (turn.toList ++ [item])).Perm (item :: own :: (turn.toList ++ []))
    rw [List.append_nil]
    exact (List.Perm.cons _ List.perm_append_comm).trans (List.Perm.swap _ _ _)

/-- A mark that is placed is one more mark. -/
theorem Placed.marks (h : Placed J tolerance kind pool item pool') (hkind : kind ≠ .event) :
    (pool'.flatMap marks).Perm (item :: pool.flatMap marks) := by
  cases h with
  | alone method hno =>
    rw [List.flatMap_append]
    exact List.perm_append_comm
  | joined front back send delta link hpool hd hmin =>
    have hattach := @marks_attach kind item send link hkind (deltaOf_some hd).1
    rw [hpool, List.flatMap_append, List.flatMap_append, List.flatMap_cons, List.flatMap_cons]
    calc (front.flatMap UnbrokenTie.marks ++ (UnbrokenTie.marks (attach send kind item link) ++ back.flatMap UnbrokenTie.marks))
      _ |>.Perm (front.flatMap UnbrokenTie.marks ++ (item :: UnbrokenTie.marks send ++ back.flatMap UnbrokenTie.marks)) :=
          .append_left _ (.append_right _ hattach)
      _ |>.Perm (item :: (front.flatMap UnbrokenTie.marks ++ (UnbrokenTie.marks send ++ back.flatMap UnbrokenTie.marks))) :=
          List.perm_middle

theorem Attached.get_set {attached : Attached} {other : SourceKind} {mark : OutboundItem}
    (h : (attached.set kind item).get other = some mark) :
    attached.get other = some mark ∨ other = kind ∧ mark = item := by
  cases kind <;> cases other <;> simp_all [Attached.set, Attached.get]

/-- Each mark still has the slot of a send of its kind. -/
theorem Placed.fit (h : Placed J tolerance kind pool item pool') (hown : item.kind = kind)
    (hfit : AllFit J tolerance pool) : AllFit J tolerance pool' := by
  cases h with
  | alone method hno =>
    intro send hs other mark hget
    obtain hs | hs := List.mem_append.1 hs
    · exact hfit send hs other mark hget
    · rw [List.mem_singleton.1 hs] at hget
      cases other <;> cases hget
  | joined front back send delta link hpool hd hmin =>
    have hmem : ∀ one, one ∈ front ∨ one = send ∨ one ∈ back → one ∈ pool := fun one hone => by
      rwa [hpool, List.mem_append, List.mem_cons]
    intro other ho slot mark hget
    rw [List.mem_append, List.mem_cons] at ho
    obtain ho | rfl | ho := ho
    · exact hfit other (hmem _ (.inl ho)) slot mark hget
    · obtain hget | ⟨rfl, rfl⟩ := Attached.get_set hget
      · have := hfit send (hmem _ (.inr (.inl rfl))) slot mark hget
        exact ⟨this.own, this.other, this.conversation, this.near⟩
      · have := (deltaOf_some hd).2 hown
        exact ⟨this.own, this.other, this.conversation, this.near⟩
    · exact hfit other (hmem _ (.inr (.inr ho))) slot mark hget

/-- Nothing that is there is lost: a send stays at its place, and its slots keep what they have. -/
def Extends (pool pool' : List Send) : Prop :=
  ∀ (i : Nat) (send : Send), pool[i]? = some send → ∃ send', pool'[i]? = some send' ∧ send'.item = send.item ∧
    ∀ kind mark, send.attached.get kind = some mark → send'.attached.get kind = some mark

theorem Extends.refl : Extends pool pool :=
  fun _ send h => ⟨send, h, rfl, fun _ _ => id⟩

theorem Extends.trans {pool'' : List Send} (h : Extends pool pool') (h' : Extends pool' pool'') :
    Extends pool pool'' := by
  intro i send hsend
  obtain ⟨send', hsend', hitem, hget⟩ := h i send hsend
  obtain ⟨send'', hsend'', hitem', hget'⟩ := h' i send' hsend'
  exact ⟨send'', hsend'', hitem'.trans hitem, fun kind mark hk => hget' kind mark (hget kind mark hk)⟩

theorem Attached.get_set_of_free {attached : Attached} {other : SourceKind} {mark : OutboundItem}
    (hfree : attached.get kind = none) (h : attached.get other = some mark) :
    (attached.set kind item).get other = some mark := by
  cases kind <;> cases other <;> simp_all [Attached.set, Attached.get]

theorem Placed.extends (h : Placed J tolerance kind pool item pool') : Extends pool pool' := by
  cases h with
  | alone method hno =>
    intro i send hsend
    obtain ⟨hi, -⟩ := List.getElem?_eq_some_iff.1 hsend
    exact ⟨send, by rwa [List.getElem?_append_left hi], rfl, fun _ _ => id⟩
  | joined front back send delta link hpool hd hmin =>
    intro i one hone
    rw [hpool] at hone
    obtain hi | hi | hi := Nat.lt_trichotomy i front.length
    · exact ⟨one, by rwa [List.getElem?_append_left hi] at hone ⊢, rfl, fun _ _ => id⟩
    · subst hi
      obtain rfl : send = one := by simpa using hone
      exact ⟨attach send kind item link, by simp, rfl, fun _ _ => Attached.get_set_of_free (deltaOf_some hd).1⟩
    · obtain ⟨j, rfl⟩ := Nat.exists_eq_add_of_lt hi
      rw [List.getElem?_append_right (by omega)] at hone ⊢
      have hj : front.length + j + 1 - front.length = j + 1 := by omega
      rw [hj] at hone ⊢
      exact ⟨one, hone, rfl, fun _ _ => id⟩

/-! ## All marks of a kind -/

/-- The marks placed one after the other. -/
inductive Run (J : Js) (tolerance : Rat) (kind : SourceKind) : List Send → List OutboundItem → List Send → Prop
  | nil (pool : List Send) : Run J tolerance kind pool [] pool
  | cons {pool pool' pool'' : List Send} {item : OutboundItem} {items : List OutboundItem} :
      Placed J tolerance kind pool item pool' → Run J tolerance kind pool' items pool'' →
      Run J tolerance kind pool (item :: items) pool''

theorem foldl_run {r : List Send × KindCounts} : Run J tolerance kind r.1 items
    (items.foldl (fun r item => placeOne J kind tolerance r.1 r.2 item) r).1 := by
  induction items generalizing r with
  | nil => exact .nil _
  | cons item items ih => exact .cons placeOne_placed ih

theorem placeAll_run : Run J tolerance kind pool items (placeAll J kind tolerance items pool).1 :=
  @foldl_run J tolerance kind items (pool, {})

theorem foldl_counts {r : List Send × KindCounts} :
    let r' := items.foldl (fun r item => placeOne J kind tolerance r.1 r.2 item) r
    r'.2.seen = r.2.seen + items.length ∧ r'.2.joined + r'.2.alone = r.2.joined + r.2.alone + items.length := by
  induction items generalizing r with
  | nil => exact ⟨rfl, rfl⟩
  | cons item items ih =>
    obtain ⟨hseen, hplaced⟩ := @placeOne_counts J tolerance kind item r.1 r.2
    obtain ⟨hs, hp⟩ := @ih (placeOne J kind tolerance r.1 r.2 item)
    rw [hseen] at hs
    rw [hplaced] at hp
    rw [List.foldl_cons, List.length_cons]
    exact ⟨by omega, by omega⟩

theorem placeAll_counts : (placeAll J kind tolerance items pool).2.seen = items.length ∧
    (placeAll J kind tolerance items pool).2.joined + (placeAll J kind tolerance items pool).2.alone =
      items.length := by
  simpa [placeAll] using @foldl_counts J tolerance kind items (pool, {})

theorem Run.marks (h : Run J tolerance kind pool items pool') (hkind : kind ≠ .event) :
    (pool'.flatMap marks).Perm (items ++ pool.flatMap marks) := by
  induction h with
  | nil => exact .refl _
  | cons hone _ ih => exact ih.trans ((List.Perm.append_left _ (hone.marks hkind)).trans List.perm_middle)

theorem Run.fit (h : Run J tolerance kind pool items pool') (hown : ∀ item ∈ items, item.kind = kind)
    (hfit : AllFit J tolerance pool) : AllFit J tolerance pool' := by
  induction h with
  | nil => exact hfit
  | cons hone _ ih =>
    obtain ⟨hitem, hitems⟩ := List.forall_mem_cons.1 hown
    exact ih hitems (hone.fit hitem hfit)

theorem Run.extends (h : Run J tolerance kind pool items pool') : Extends pool pool' := by
  induction h with
  | nil => exact .refl
  | cons hone _ ih => exact hone.extends.trans ih

/-! ## The join -/

/-- Every mark is kept, each in one place that it may have; no send has two marks of a kind; a mark that went
to a send had no nearer one that could take it; and the counts are those of the marks. -/
structure Conserves (J : Js) (items : List OutboundItem) (tolerance : Rat) (joining : Joining) : Prop where
  all : (joining.pool.flatMap marks).Perm items
  fit : AllFit J tolerance joining.pool
  single : ∀ send ∈ joining.pool, ((marks send).map (·.kind)).Nodup
  nearest : ∃ events turns, events.map (·.item) = ordered J (ofKind .event items) ∧
    Run J tolerance .turn events (ordered J (ofKind .turn items)) turns ∧
    Run J tolerance .audit turns (ordered J (ofKind .audit items)) joining.pool
  turn : joining.turn.seen = (ofKind .turn items).length ∧
    joining.turn.joined + joining.turn.alone = joining.turn.seen
  audit : joining.audit.seen = (ofKind .audit items).length ∧
    joining.audit.joined + joining.audit.alone = joining.audit.seen

theorem ordered_perm (items : List OutboundItem) : (ordered J items).Perm items := sortBy_perm _ items

theorem ordered_own : ∀ item ∈ ordered J (ofKind kind items), item.kind = kind := by
  intro item h
  have := List.of_mem_filter ((ordered_perm _).mem_iff.1 h)
  simpa using this

theorem ofKind_perm (items : List OutboundItem) :
    (ofKind .audit items ++ (ofKind .turn items ++ ofKind .event items)).Perm items := by
  induction items with
  | nil => exact .refl _
  | cons item items ih =>
    simp only [ofKind, List.filter_cons] at ih ⊢
    cases hk : item.kind with
    | audit => simpa [hk] using ih
    | turn => simpa [hk] using List.perm_middle.trans (ih.cons item)
    | event =>
      simp only [reduceCtorEq, decide_false, decide_true, Bool.false_eq_true, if_true, if_false]
      rw [← List.append_assoc] at ih ⊢
      exact List.perm_middle.trans (ih.cons item)

/-- The events, each a send. -/
abbrev events (J : Js) (items : List OutboundItem) : List Send :=
  (ordered J (ofKind .event items)).map (sendFor · "the platform message id the capture carries")

theorem events_marks : (events J items).flatMap marks = ordered J (ofKind .event items) := by
  rw [List.flatMap_map]
  exact List.flatMap_singleton' _

theorem events_fit : AllFit J tolerance (events J items) := by
  intro send hs kind mark hget
  obtain ⟨item, -, rfl⟩ := List.mem_map.1 hs
  cases kind <;> cases hget

theorem single_of_fit (h : AllFit J tolerance pool) : ∀ send ∈ pool, ((marks send).map (·.kind)).Nodup := by
  intro send hs
  have hturn := h send hs .turn
  have haudit := h send hs .audit
  obtain ⟨own, ⟨turn, audit⟩, links⟩ := send
  have hturn : ∀ mark, turn = some mark → mark.kind = .turn ∧ own.kind ≠ .turn :=
    fun mark hm => ⟨(hturn mark hm).own, (hturn mark hm).other⟩
  have haudit : ∀ mark, audit = some mark → mark.kind = .audit ∧ own.kind ≠ .audit :=
    fun mark hm => ⟨(haudit mark hm).own, (haudit mark hm).other⟩
  cases turn <;> cases audit <;> simp_all [marks]

theorem joinOutbound_conserves : Conserves J items tolerance (joinOutbound J items tolerance) := by
  have hturns := @placeAll_run J tolerance .turn (ordered J (ofKind .turn items)) (events J items)
  have haudits := @placeAll_run J tolerance .audit (ordered J (ofKind .audit items))
    (placeAll J .turn tolerance (ordered J (ofKind .turn items)) (events J items)).1
  have hfit := haudits.fit ordered_own (hturns.fit ordered_own events_fit)
  have hlen : ∀ kind, (ordered J (ofKind kind items)).length = (ofKind kind items).length :=
    fun kind => (ordered_perm _).length_eq
  refine ⟨?_, hfit, single_of_fit hfit, ⟨_, _, ?_, hturns, haudits⟩, ?_, ?_⟩
  · have hmarks := hturns.marks (by decide)
    rw [events_marks] at hmarks
    have hkinds := (ordered_perm (J := J) (ofKind .audit items)).append
      (hmarks.trans ((ordered_perm (ofKind .turn items)).append (ordered_perm (ofKind .event items))))
    exact (haudits.marks (by decide)).trans (hkinds.trans (ofKind_perm items))
  · rw [List.map_map]
    exact List.map_id _
  · obtain ⟨hseen, hplaced⟩ := @placeAll_counts J tolerance .turn (ordered J (ofKind .turn items)) (events J items)
    exact ⟨hseen.trans (hlen .turn), hplaced.trans hseen.symm⟩
  · obtain ⟨hseen, hplaced⟩ := @placeAll_counts J tolerance .audit (ordered J (ofKind .audit items))
      (placeAll J .turn tolerance (ordered J (ofKind .turn items)) (events J items)).1
    exact ⟨hseen.trans (hlen .audit), hplaced.trans hseen.symm⟩

/-! ## The order of the list -/

/-- No id tells the marks apart: neither is earlier. -/
def Tied (J : Js) (one other : OutboundItem) : Prop :=
  one.kind = other.kind ∧ (millisOf J one).getD 0 = (millisOf J other).getD 0 ∧
    J.localeCompare one.messageId other.messageId = .eq

def NoTies (J : Js) (items : List OutboundItem) : Prop :=
  ∀ one ∈ items, ∀ other ∈ items, Tied J one other → one = other

theorem earlier_iff (one other : OutboundItem) : earlier J one other = true ↔
    (millisOf J one).getD 0 < (millisOf J other).getD 0 ∨ (millisOf J one).getD 0 = (millisOf J other).getD 0 ∧
      J.localeCompare one.messageId other.messageId = .lt := by
  unfold earlier
  dsimp only
  split_ifs with h
  · simp [h]
  · simp [h]

theorem earlier_weak [Std.TransCmp J.localeCompare] : WeakOrder (earlier J) where
  asymm a b h := by
    by_contra hne
    rw [Bool.not_eq_false] at hne
    rw [earlier_iff] at h hne
    have hswap : J.localeCompare b.messageId a.messageId = (J.localeCompare a.messageId b.messageId).swap :=
      Std.OrientedCmp.eq_swap
    rw [hswap] at hne
    rcases h with h | ⟨ht, h⟩
    · omega
    · simp [h, ht] at hne
  split a b c h := by
    by_contra hne
    rw [not_or, earlier_iff, earlier_iff] at hne
    rw [earlier_iff] at h
    obtain ⟨hab, hbc⟩ := hne
    rw [not_or, not_and] at hab hbc
    obtain h | ⟨ht, h⟩ := h
    · omega
    · have hab' := hab.2 (by omega)
      have hbc' := hbc.2 (by omega)
      have hge : (J.localeCompare a.messageId b.messageId).isGE := by
        cases hcmp : J.localeCompare a.messageId b.messageId <;> simp_all
      have hge' : (J.localeCompare b.messageId c.messageId).isGE := by
        cases hcmp : J.localeCompare b.messageId c.messageId <;> simp_all
      have := Std.TransCmp.isGE_trans hge hge'
      rw [h] at this
      cases this

theorem tied_of_not_earlier [Std.TransCmp J.localeCompare] {one other : OutboundItem} (hkind : one.kind = other.kind)
    (h : earlier J one other = false) (h' : earlier J other one = false) : Tied J one other := by
  rw [← Bool.not_eq_true, earlier_iff] at h h'
  have hswap : J.localeCompare other.messageId one.messageId = (J.localeCompare one.messageId other.messageId).swap :=
    Std.OrientedCmp.eq_swap
  rw [hswap] at h'
  rw [not_or, not_and] at h h'
  have htime : (millisOf J one).getD 0 = (millisOf J other).getD 0 := by omega
  have hlt := h.2 htime
  have hgt := h'.2 htime.symm
  refine ⟨hkind, htime, ?_⟩
  cases hcmp : J.localeCompare one.messageId other.messageId <;> simp_all

theorem ordered_eq [Std.TransCmp J.localeCompare] (hties : NoTies J items) (hperm : items.Perm items') :
    ordered J (ofKind kind items) = ordered J (ofKind kind items') := by
  refine sortBy_perm_eq earlier_weak (hperm.filter _) fun one hone other hother h h' => ?_
  obtain ⟨hone, hk⟩ := List.mem_filter.1 hone
  obtain ⟨hother, hk'⟩ := List.mem_filter.1 hother
  simp only [decide_eq_true_eq] at hk hk'
  exact hties one hone other hother (tied_of_not_earlier (hk.trans hk'.symm) h h')

theorem joinOutbound_eq [Std.TransCmp J.localeCompare] (hties : NoTies J items) (hperm : items.Perm items') :
    joinOutbound J items tolerance = joinOutbound J items' tolerance := by
  unfold joinOutbound
  rw [ordered_eq hties hperm, ordered_eq hties hperm, ordered_eq hties hperm]

/-- Two tied marks stand beside each other as the list has them. -/
theorem insertBy_tied [Std.TransCmp J.localeCompare] {one other : OutboundItem} (htied : Tied J one other)
    (items : List OutboundItem) : ∃ front back,
      insertBy (earlier J) one (insertBy (earlier J) other items) = front ++ one :: other :: back ∧
      insertBy (earlier J) other (insertBy (earlier J) one items) = front ++ other :: one :: back := by
  have hsym : J.localeCompare other.messageId one.messageId = .eq := Std.OrientedCmp.eq_symm htied.2.2
  have hno : earlier J one other = false ∧ earlier J other one = false := by
    simp [← Bool.not_eq_true, earlier_iff, htied.2.1, htied.2.2, hsym]
  have hsame : ∀ item, earlier J item one = earlier J item other := by
    intro item
    rw [Bool.eq_iff_iff, earlier_iff, earlier_iff, htied.2.1, Std.TransCmp.congr_right htied.2.2]
  induction items with
  | nil => exact ⟨[], [], by simp [insertBy, hno], by simp [insertBy, hno]⟩
  | cons item items ih =>
    cases hitem : earlier J item other with
    | true =>
      obtain ⟨front, back, h, h'⟩ := ih
      have := hsame item
      exact ⟨item :: front, back, by simp_all [insertBy], by simp_all [insertBy]⟩
    | false =>
      have := hsame item
      exact ⟨[], item :: items, by simp_all [insertBy], by simp_all [insertBy]⟩

/-! ## Where the order of the list shows -/

/-- A mark at a place: as the send itself, or in its slot. -/
def Has (slot : Option SourceKind) (i : Nat) (mark : OutboundItem) (pool : List Send) : Prop :=
  ∃ send, pool[i]? = some send ∧
    match slot with
    | none => send.item = mark
    | some kind => send.attached.get kind = some mark

theorem Has.extends {slot : Option SourceKind} {i : Nat} {mark : OutboundItem} (h : Has slot i mark pool)
    (hext : Extends pool pool') : Has slot i mark pool' := by
  obtain ⟨send, hsend, hmark⟩ := h
  obtain ⟨send', hsend', hitem, hget⟩ := hext i send hsend
  refine ⟨send', hsend', ?_⟩
  cases slot with
  | none => exact hitem.trans hmark
  | some kind => exact hget kind mark hmark

theorem Has.unique {slot : Option SourceKind} {i : Nat} {one other : OutboundItem} (h : Has slot i one pool)
    (h' : Has slot i other pool) : one = other := by
  obtain ⟨send, hsend, hmark⟩ := h
  obtain ⟨send', hsend', hmark'⟩ := h'
  obtain rfl := Option.some.inj (hsend.symm.trans hsend')
  cases slot with
  | none => exact hmark.symm.trans hmark'
  | some kind => exact Option.some.inj (hmark.symm.trans hmark')

theorem nearestFrom_congr {one other : OutboundItem} {i : Nat} {found : Option Best × Nat}
    (h : ∀ send, deltaOf J send one kind tolerance = deltaOf J send other kind tolerance) :
    nearestFrom J one kind tolerance i pool found = nearestFrom J other kind tolerance i pool found := by
  induction pool generalizing i found with
  | nil => rfl
  | cons send pool ih =>
    obtain ⟨best, n⟩ := found
    rw [nearestFrom, nearestFrom, h]
    cases deltaOf J send other kind tolerance with
    | none => exact ih
    | some delta => exact ih

/-- Two marks that the same sends may take go to the same place. -/
theorem placeOne_has {one other : OutboundItem} {counts' : KindCounts} (hkind : kind ≠ .event)
    (h : ∀ send, deltaOf J send one kind tolerance = deltaOf J send other kind tolerance) :
    ∃ slot i, Has slot i one (placeOne J kind tolerance pool counts one).1 ∧
      Has slot i other (placeOne J kind tolerance pool counts' other).1 := by
  have hnearest := @nearestFrom_nearest J tolerance kind other pool [] 0 none (by simp [Nearest])
  rw [List.nil_append, List.length_nil] at hnearest
  unfold placeOne nearestSend
  rw [nearestFrom_congr h]
  rcases hf : nearestFrom J other kind tolerance 0 pool (none, 0) with ⟨_ | best, candidates⟩
  · exact ⟨none, pool.length, ⟨_, List.getElem?_concat_length, rfl⟩, ⟨_, List.getElem?_concat_length, rfl⟩⟩
  · rw [hf] at hnearest
    obtain ⟨hi, -⟩ := List.getElem?_eq_some_iff.1 hnearest.1
    refine ⟨some kind, best.index, ⟨_, List.getElem?_set_self hi, ?_⟩, ⟨_, List.getElem?_set_self hi, ?_⟩⟩ <;>
      cases kind <;> first | exact absurd rfl hkind | rfl

theorem placeAll_has {one other : OutboundItem} {front back back' : List OutboundItem} (hkind : kind ≠ .event)
    (h : ∀ send, deltaOf J send one kind tolerance = deltaOf J send other kind tolerance) :
    ∃ slot i, Has slot i one (placeAll J kind tolerance (front ++ one :: back) pool).1 ∧
      Has slot i other (placeAll J kind tolerance (front ++ other :: back') pool).1 := by
  unfold placeAll
  rw [List.foldl_append, List.foldl_append, List.foldl_cons, List.foldl_cons]
  obtain ⟨slot, i, hone, hother⟩ := @placeOne_has J tolerance kind _ _ one other _ hkind h
  exact ⟨slot, i, hone.extends foldl_run.extends, hother.extends foldl_run.extends⟩

/-- Marks of which the order tells where they go. -/
structure Swappable (J : Js) (one other : OutboundItem) : Prop where
  tied : Tied J one other
  beside : one.kind = .event ∨ one.conversationId = other.conversationId ∧ millisOf J one = millisOf J other

theorem ofKind_cons (kind : SourceKind) (item : OutboundItem) (items : List OutboundItem) :
    ofKind kind (item :: items) = if item.kind = kind then item :: ofKind kind items else ofKind kind items := by
  simp [ofKind, List.filter_cons]

theorem swap_has [Std.TransCmp J.localeCompare] {one other : OutboundItem} (h : Swappable J one other)
    (items : List OutboundItem) : ∃ slot i,
      Has slot i one (joinOutbound J (one :: other :: items) tolerance).pool ∧
      Has slot i other (joinOutbound J (other :: one :: items) tolerance).pool := by
  have hkind := h.tied.1
  obtain ⟨front, back, hfront, hback⟩ := insertBy_tied h.tied (ordered J (ofKind one.kind items))
  have hdelta : one.kind ≠ .event → ∀ send kind,
      deltaOf J send one kind tolerance = deltaOf J send other kind tolerance := by
    intro hevent send kind
    obtain ⟨hconv, htime⟩ := h.beside.resolve_left hevent
    unfold deltaOf
    rw [hconv, htime]
  unfold joinOutbound
  cases hk : one.kind with
  | event =>
    rw [hk] at hfront hback
    refine ⟨none, front.length, Has.extends ?_ (placeAll_run.extends.trans placeAll_run.extends),
      Has.extends ?_ (placeAll_run.extends.trans placeAll_run.extends)⟩
    · simp only [ofKind_cons, hk, ← hkind, if_true, ordered, sortBy] at hfront ⊢
      rw [hfront]
      rw [List.map_append, List.map_cons]
      exact ⟨_, by rw [List.getElem?_append_right (by simp), List.length_map, Nat.sub_self, List.getElem?_cons_zero], rfl⟩
    · simp only [ofKind_cons, hk, ← hkind, if_true, ordered, sortBy] at hback ⊢
      rw [hback]
      rw [List.map_append, List.map_cons]
      exact ⟨_, by rw [List.getElem?_append_right (by simp), List.length_map, Nat.sub_self, List.getElem?_cons_zero], rfl⟩
  | turn =>
    rw [hk] at hfront hback
    simp only [ofKind_cons, hk, ← hkind, if_true, reduceCtorEq, if_false, ordered, sortBy] at hfront hback ⊢
    rw [hfront, hback]
    obtain ⟨slot, i, hone, hother⟩ := @placeAll_has J tolerance .turn _ one other front (other :: back) (one :: back)
      (by decide) fun send => hdelta (by simp [hk]) send _
    exact ⟨slot, i, hone.extends placeAll_run.extends, hother.extends placeAll_run.extends⟩
  | audit =>
    rw [hk] at hfront hback
    simp only [ofKind_cons, hk, ← hkind, if_true, reduceCtorEq, if_false, ordered, sortBy] at hfront hback ⊢
    rw [hfront, hback]
    exact placeAll_has (by decide) fun send => hdelta (by simp [hk]) send _

/-- Where the order of the list does not show, no two marks can be swapped. -/
theorem untied_of_same [Std.TransCmp J.localeCompare]
    (hsame : ∀ items', items.Perm items' → joinOutbound J items tolerance = joinOutbound J items' tolerance) :
    ∀ one ∈ items, ∀ other ∈ items, Swappable J one other → one = other := by
  intro one hone other hother h
  by_contra hne
  have hperm := List.perm_cons_erase hone
  have hin : other ∈ items.erase one := (List.mem_erase_of_ne (Ne.symm hne)).2 hother
  have hperm' := hperm.trans ((List.perm_cons_erase hin).cons one)
  obtain ⟨slot, i, hat, hat'⟩ := @swap_has J tolerance _ one other h ((items.erase one).erase other)
  rw [← hsame _ hperm'] at hat
  rw [← hsame _ (hperm'.trans (.swap _ _ _))] at hat'
  exact hne (hat.unique hat')

theorem join_conserves [Std.TransCmp J.localeCompare] (items : List OutboundItem) (tolerance : Rat) :
    Conserves J items tolerance (joinOutbound J items tolerance) ∧
    (NoTies J items → ∀ items', items.Perm items' → joinOutbound J items tolerance = joinOutbound J items' tolerance) ∧
    ((∀ items', items.Perm items' → joinOutbound J items tolerance = joinOutbound J items' tolerance) →
      ∀ one ∈ items, ∀ other ∈ items, Swappable J one other → one = other) :=
  ⟨joinOutbound_conserves, fun hties _ hperm => joinOutbound_eq hties hperm, untied_of_same⟩

/-! ## A run, and the failing input -/

/-- A collation for which an accent written apart is the letter that has it. -/
def accentJs : Js :=
  let composed (text : String) : String := if text = "e\u0301" then "\u00e9" else text
  { plainJs with
    parse := fun text =>
      [("2026-03-01T10:00:00Z", 1772359200000), ("2026-03-01T10:00:30Z", 1772359230000)].lookup text
    localeCompare := compareOn composed }

def markOf (kind : SourceKind) (messageId timestamp : String) : OutboundItem :=
  { kind, messageId, conversationId := "c", timestamp := some timestamp }

def threeMarks : List OutboundItem :=
  [markOf .audit "a" "2026-03-01T10:00:30Z", markOf .turn "t" "2026-03-01T10:00:30Z",
    markOf .event "e" "2026-03-01T10:00:00Z"]

instance (J : Js) (one other : OutboundItem) : Decidable (Tied J one other) :=
  inferInstanceAs (Decidable (_ ∧ _ ∧ _))

theorem threeMarks_joined : Conserves accentJs threeMarks 60000 (joinOutbound accentJs threeMarks 60000) ∧
    ∀ items', threeMarks.Perm items' →
      joinOutbound accentJs threeMarks 60000 = joinOutbound accentJs items' 60000 := by
  have : Std.TransCmp accentJs.localeCompare := inferInstanceAs (Std.TransCmp (compareOn _))
  obtain ⟨hconserves, hsame, -⟩ := join_conserves (J := accentJs) threeMarks 60000
  exact ⟨hconserves, hsame (by unfold NoTies; decide +kernel)⟩

theorem accent_swapped :
    let one := markOf .event "e\u0301" "2026-03-01T10:00:00Z"
    let other := markOf .event "\u00e9" "2026-03-01T10:00:00Z"
    one.messageId ≠ other.messageId ∧ [one, other].Perm [other, one] ∧
    joinOutbound accentJs [one, other] 60000 ≠ joinOutbound accentJs [other, one] 60000 := by
  refine ⟨by decide, .swap _ _ _, by decide +kernel⟩

end CarbonRuntime.Bugs.UnbrokenTie
