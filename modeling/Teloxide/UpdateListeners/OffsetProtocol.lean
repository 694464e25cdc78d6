import Teloxide.UpdateListeners.Polling

/-!
# The offset protocol of long polling

* `Stored`: where the updates are. What is pending on the server below the
  offset of the stream was received or dropped, so that a request may confirm
  it; an answer that waits on the wire leaves out no pending update below its
  last one.
* `Halting`: how many requests there may still be once the flag is set.
* `offset_protocol`: in every run each update is yielded at most once and in
  order, is not confirmed before that, and little is sent after the stop.
* `two_sends_after_stop`: a flag that is set under a poll may find two more.
-/
namespace Teloxide.UpdateListeners

open Teloxide.Core

/-- What a listener may log after `log`. -/
def Allowed (P : Polling) : Entry → List Entry → Prop
  | .yielded update, log => ∀ earlier ∈ yielded log, earlier < update
  | .confirmed offset updates, log =>
    .sent offset ∈ log ∧ (offset = -1 ∨ ∀ id ∈ updates, id ∈ yielded log ∨ id ∈ dropped log)
  | .dropped _, log => P.dropPendingUpdates = true ∧ received log = []
  | .sent offset, log =>
    received log = yielded log ∧ (offset = -1 → P.dropPendingUpdates = true ∧ received log = [])
  | .ended, log => received log = yielded log
  | _, _ => True

theorem splits_cons {Q : Entry → List Entry → Prop} {e : Entry} {log : List Entry} (he : Q e log)
    (h : ∀ after e' before, log = after ++ e' :: before → Q e' before) :
    ∀ after e' before, e :: log = after ++ e' :: before → Q e' before := by
  intro after e' before hsplit
  cases after with
  | nil =>
    obtain ⟨rfl, rfl⟩ := List.cons.inj hsplit
    exact he
  | cons e₁ after => exact h after e' before (List.cons.inj hsplit).2

/-! ## What the server answers -/

/-- `updates` is an answer from this server to a request with this offset: no
update that is still pending is missing below one that is there. -/
structure Answer (server : Server) (offset : Int) (updates : List Nat) : Prop where
  sorted : updates.Pairwise (· < ·)
  above : ∀ id ∈ updates, offset ≤ id ∧ id < server.nextId
  whole : ∀ id ∈ server.pending, ∀ last ∈ updates, id ≤ last → id ∈ updates

theorem mem_take_of_le {l : List Nat} (hl : l.Pairwise (· < ·)) {n a b : Nat} (ha : a ∈ l) (hb : b ∈ l.take n)
    (h : a ≤ b) : a ∈ l.take n := by
  rw [← List.take_append_drop n l] at ha hl
  rcases List.mem_append.1 ha with ha | ha
  · exact ha
  · have := (List.pairwise_append.1 hl).2.2 b hb a ha
    omega

namespace Server

theorem remains_sublist (s : Server) (offset : Int) : (s.remains offset).Sublist s.pending := by
  unfold remains
  split
  · exact List.drop_sublist _ _
  · exact List.filter_sublist

theorem answer_sublist (s : Server) (payload : GetUpdates) : (s.answer payload).Sublist (s.remains payload.offset) :=
  List.take_sublist _ _

theorem le_of_mem_remains {s : Server} {offset : Int} (h : -1 ≤ offset) {id : Nat} (hid : id ∈ s.remains offset) :
    offset ≤ id := by
  unfold remains at hid
  split at hid
  · omega
  · simpa using (List.mem_filter.1 hid).2

theorem mem_confirms {s : Server} {offset : Int} (h : 0 ≤ offset) {id : Nat} (hid : id ∈ s.confirms offset) :
    id ∈ s.pending ∧ (id : Int) < offset := by
  rw [confirms, if_neg (by omega)] at hid
  simpa using hid

theorem answer_answers {s : Server} {payload : GetUpdates} (hs : s.pending.Pairwise (· < ·))
    (hb : ∀ id ∈ s.pending, id < s.nextId) (h : -1 ≤ payload.offset) :
    Answer { s with pending := s.remains payload.offset } payload.offset (s.answer payload) where
  sorted := (hs.sublist (s.remains_sublist _)).sublist (s.answer_sublist _)
  above id hid :=
    have hr := (s.answer_sublist payload).subset hid
    ⟨le_of_mem_remains h hr, hb id ((s.remains_sublist _).subset hr)⟩
  whole _ hid _ hlast hle := mem_take_of_le (hs.sublist (s.remains_sublist _)) hid hlast hle

end Server

/-- An answer stays one as the server forgets updates. -/
theorem Answer.remains {server : Server} {offset : Int} {updates : List Nat} (h : Answer server offset updates)
    (other : Int) : Answer { server with pending := server.remains other } offset updates where
  sorted := h.sorted
  above := h.above
  whole id hid := h.whole id ((server.remains_sublist other).subset hid)

theorem Answer.arrive {server : Server} {offset : Int} {updates : List Nat} (h : Answer server offset updates)
    {id : Nat} (hid : server.nextId ≤ id) : Answer ⟨server.pending ++ [id], id + 1⟩ offset updates where
  sorted := h.sorted
  above i hi := ⟨(h.above i hi).1, by have := (h.above i hi).2; show i < id + 1; omega⟩
  whole i hi last hlast hle := by
    rcases List.mem_append.1 hi with hi | hi
    · exact h.whole i hi last hlast hle
    · obtain rfl := List.mem_singleton.1 hi
      have := (h.above last hlast).2
      omega

/-! ## What the stream has taken -/

/-- A request with this offset is harmless whenever it is processed. -/
structure Spent (server : Server) (log : List Entry) (offset : Int) : Prop where
  sent : .sent offset ∈ log
  below : offset ≤ server.nextId
  covers : offset = -1 ∨
    (0 ≤ offset ∧ ∀ id ∈ server.pending, (id : Int) < offset → id ∈ yielded log ∨ id ∈ dropped log)

/-- A request that the stream waits for. -/
structure Built (s : PollingStream) (server : Server) (log : List Entry) (q : Request) : Prop where
  offset : q.payload.offset = if s.dropPendingUpdates && !s.stopping then -1 else s.offset
  sent : q.wire ≠ .unsent → s.buffer = [] ∧ .sent q.payload.offset ∈ log
  answered : ∀ updates, q.wire = .answered updates → Answer server q.payload.offset updates

/-- The updates on their way from the server to the caller. -/
structure Stored (P : Polling) (s : PollingStream) (server : Server) (late : List GetUpdates) (log : List Entry) :
    Prop where
  sorted : server.pending.Pairwise (· < ·)
  below : ∀ id ∈ server.pending, id < server.nextId
  bound : server.nextId ≤ i32Max
  offset_nonneg : 0 ≤ s.offset
  offset_le : s.offset ≤ server.nextId
  flow : received log = yielded log ++ s.buffer
  increasing : (received log).Pairwise (· < ·)
  passed : ∀ id ∈ received log, (id : Int) < s.offset
  covered : ∀ id ∈ server.pending, (id : Int) < s.offset → id ∈ received log ∨ id ∈ dropped log
  dropping : s.dropPendingUpdates = true → P.dropPendingUpdates = true ∧ s.offset = 0 ∧ received log = []
  inFlight : ∀ q, s.inFlight = some q → Built s server log q
  late : ∀ payload ∈ late, Spent server log payload.offset
  allowed : ∀ after e before, log = after ++ e :: before → Allowed P e before

section Stored

variable {P : Polling} {s : PollingStream} {server : Server} {late : List GetUpdates} {log : List Entry}

theorem mem_yielded_cons {id : Nat} (e : Entry) (h : id ∈ yielded log) : id ∈ yielded (e :: log) := by
  cases e <;> simp [yielded, h]

theorem mem_dropped_cons {id : Nat} (e : Entry) (h : id ∈ dropped log) : id ∈ dropped (e :: log) := by
  cases e <;> simp [dropped, h]

theorem Spent.cons {offset : Int} (h : Spent server log offset) (e : Entry) : Spent server (e :: log) offset where
  sent := List.mem_cons_of_mem _ h.sent
  below := h.below
  covers := h.covers.imp_right fun ⟨h0, hc⟩ =>
    ⟨h0, fun id hid hlt => (hc id hid hlt).imp (mem_yielded_cons e) (mem_dropped_cons e)⟩

theorem Spent.remains {offset : Int} (h : Spent server log offset) (other : Int) :
    Spent { server with pending := server.remains other } log offset where
  sent := h.sent
  below := h.below
  covers := h.covers.imp_right fun ⟨h0, hc⟩ =>
    ⟨h0, fun id hid hlt => hc id ((server.remains_sublist other).subset hid) hlt⟩

theorem Spent.arrive {offset : Int} (h : Spent server log offset) {id : Nat} (hid : server.nextId ≤ id) :
    Spent ⟨server.pending ++ [id], id + 1⟩ log offset where
  sent := h.sent
  below := by
    have := h.below
    show offset ≤ ((id + 1 : Nat) : Int)
    omega
  covers := h.covers.imp_right fun ⟨h0, hc⟩ => by
    refine ⟨h0, fun i hi hlt => ?_⟩
    rcases List.mem_append.1 hi with hi | hi
    · exact hc i hi hlt
    · -- the new update is above the offset
      obtain rfl := List.mem_singleton.1 hi
      have := h.below
      omega

theorem Built.cons {q : Request} (h : Built s server log q) (e : Entry) : Built s server (e :: log) q where
  offset := h.offset
  sent hw := (h.sent hw).imp_right (List.mem_cons_of_mem _)
  answered := h.answered

theorem Built.remains {q : Request} (h : Built s server log q) (other : Int) :
    Built s { server with pending := server.remains other } log q where
  offset := h.offset
  sent := h.sent
  answered updates hw := (h.answered updates hw).remains other

theorem Built.arrive {q : Request} (h : Built s server log q) {id : Nat} (hid : server.nextId ≤ id) :
    Built s ⟨server.pending ++ [id], id + 1⟩ log q where
  offset := h.offset
  sent := h.sent
  answered updates hw := (h.answered updates hw).arrive hid

/-- Fields that no update passes through may change. -/
theorem Stored.stream (h : Stored P s server late log) {s' : PollingStream} (ho : s'.offset = s.offset)
    (hd : s'.dropPendingUpdates = s.dropPendingUpdates) (hb : s'.buffer = s.buffer)
    (hf : ∀ q, s'.inFlight = some q → Built s' server log q) : Stored P s' server late log where
  sorted := h.sorted
  below := h.below
  bound := h.bound
  offset_nonneg := ho ▸ h.offset_nonneg
  offset_le := ho ▸ h.offset_le
  flow := hb ▸ h.flow
  increasing := h.increasing
  passed := ho ▸ h.passed
  covered := ho ▸ h.covered
  dropping := by rw [hd, ho]; exact h.dropping
  inFlight := hf
  late := h.late
  allowed := h.allowed

/-- An entry that moves no update. -/
def Entry.still : Entry → Bool
  | .received _ | .dropped _ | .yielded _ => false
  | _ => true

theorem Stored.note (h : Stored P s server late log) {e : Entry} (he : e.still = true) (ha : Allowed P e log) :
    Stored P s server late (e :: log) := by
  have hr : received (e :: log) = received log := by cases e <;> first | rfl | cases he
  have hy : yielded (e :: log) = yielded log := by cases e <;> first | rfl | cases he
  have hd : dropped (e :: log) = dropped log := by cases e <;> first | rfl | cases he
  exact
    { h with
      flow := by rw [hr, hy]; exact h.flow
      increasing := hr ▸ h.increasing
      passed := hr ▸ h.passed
      covered := by rw [hr, hd]; exact h.covered
      dropping := hr ▸ h.dropping
      inFlight := fun q hq => (h.inFlight q hq).cons e
      late := fun payload hp => (h.late payload hp).cons e
      allowed := splits_cons ha h.allowed }

/-- A request on the wire is harmless: the buffer is empty under it. -/
theorem Stored.spent (h : Stored P s server late log) {q : Request} (hq : s.inFlight = some q)
    (hw : q.wire ≠ .unsent) : Spent server log q.payload.offset := by
  have hb := h.inFlight q hq
  obtain ⟨hbuf, hsent⟩ := hb.sent hw
  have hoff := hb.offset
  have h0 := h.offset_nonneg
  have hle := h.offset_le
  refine ⟨hsent, ?_, ?_⟩
  · split at hoff <;> omega
  · split at hoff
    · exact .inl hoff
    · refine .inr ⟨by omega, fun id hid hlt => ?_⟩
      have hflow := h.flow
      rw [hbuf, List.append_nil] at hflow
      rw [← hflow]
      exact h.covered id hid (hoff ▸ hlt)

theorem Stored.process (h : Stored P s server late log) {offset : Int} (hs : Spent server log offset) :
    Stored P s { server with pending := server.remains offset } late
      (.confirmed offset (server.confirms offset) :: log) := by
  have hsub := server.remains_sublist offset
  have hkept : Stored P s { server with pending := server.remains offset } late log :=
    { h with
      sorted := h.sorted.sublist hsub
      below := fun id hid => h.below id (hsub.subset hid)
      covered := fun id hid => h.covered id (hsub.subset hid)
      inFlight := fun q hq => (h.inFlight q hq).remains offset
      late := fun payload hp => (h.late payload hp).remains offset }
  refine hkept.note rfl ⟨hs.sent, hs.covers.imp_right fun ⟨h0, hc⟩ id hid => ?_⟩
  obtain ⟨hp, hlt⟩ := Server.mem_confirms h0 hid
  exact hc id hp hlt

theorem Stored.arrive (h : Stored P s server late log) {id : Nat} (hid : server.nextId ≤ id) (hmax : id < i32Max) :
    Stored P s ⟨server.pending ++ [id], id + 1⟩ late log where
  sorted := by
    refine List.pairwise_append.2 ⟨h.sorted, List.pairwise_singleton _ _, fun a ha b hb => ?_⟩
    obtain rfl := List.mem_singleton.1 hb
    exact Nat.lt_of_lt_of_le (h.below a ha) hid
  below i hi := by
    rcases List.mem_append.1 hi with hi | hi
    · have := h.below i hi
      show i < id + 1
      omega
    · obtain rfl := List.mem_singleton.1 hi
      exact Nat.lt_succ_self i
  bound := hmax
  offset_nonneg := h.offset_nonneg
  offset_le := by
    have := h.offset_le
    show s.offset ≤ ((id + 1 : Nat) : Int)
    omega
  flow := h.flow
  increasing := h.increasing
  passed := h.passed
  covered i hi hlt := by
    rcases List.mem_append.1 hi with hi | hi
    · exact h.covered i hi hlt
    · obtain rfl := List.mem_singleton.1 hi
      have := h.offset_le
      omega
  dropping := h.dropping
  inFlight q hq := (h.inFlight q hq).arrive hid
  late payload hp := (h.late payload hp).arrive hid
  allowed := h.allowed

theorem Stored.request (h : Stored P s server late log) : Stored P (s.request P) server late log := by
  refine h.stream rfl rfl rfl fun q hq => ?_
  obtain rfl := Option.some.inj hq
  refine ⟨?_, fun hw => absurd rfl hw, fun updates hw => by cases hw⟩
  show (s.payload P).offset = if s.dropPendingUpdates && !s.stopping then -1 else s.offset
  unfold PollingStream.payload
  cases s.stopping <;> cases s.dropPendingUpdates <;> rfl

theorem Stored.yieldNext (h : Stored P s server late log) {update : Nat} {buffer : List Nat}
    (hb : s.buffer = update :: buffer) :
    Stored P { s with buffer := buffer } server late (.yielded update :: log) := by
  have hflow := h.flow
  have hinc := h.increasing
  rw [hb] at hflow
  rw [hflow] at hinc
  have hunsent : ∀ q, s.inFlight = some q → q.wire = .unsent := by
    intro q hq
    refine Decidable.byContradiction fun hw => ?_
    have := ((h.inFlight q hq).sent hw).1
    rw [hb] at this
    cases this
  exact
    { h with
      flow := by
        show received log = (yielded log ++ [update]) ++ buffer
        rw [hflow, List.append_assoc, List.singleton_append]
      inFlight := fun q hq =>
        { offset := (h.inFlight q hq).offset
          sent := fun hw => absurd (hunsent q hq) hw
          answered := fun updates hw => by rw [hunsent q hq] at hw; cases hw }
      late := fun payload hp => (h.late payload hp).cons _
      allowed := splits_cons
        (fun earlier he => (List.pairwise_append.1 hinc).2.2 earlier he update List.mem_cons_self) h.allowed }

theorem le_getLast {l : List Nat} (hl : l.Pairwise (· < ·)) {last : Nat} (h : l.getLast? = some last) :
    ∀ id ∈ l, id ≤ last := by
  intro id hid
  rw [List.getLast?_eq_some_iff] at h
  obtain ⟨front, rfl⟩ := h
  rcases List.mem_append.1 hid with hid | hid
  · exact Nat.le_of_lt ((List.pairwise_append.1 hl).2.2 id hid last List.mem_cons_self)
  · exact Nat.le_of_eq (List.mem_singleton.1 hid)

/-- The next offset passes over the answer and over nothing else. -/
theorem Stored.offsetAfter (h : Stored P s server late log) {offset : Int} {updates : List Nat}
    (ha : Answer server offset updates) (ho : s.offset ≤ offset ∨ s.offset = 0) :
    s.offset ≤ s.offsetAfter updates ∧ s.offsetAfter updates ≤ server.nextId ∧
      (∀ id ∈ updates, (id : Int) < s.offsetAfter updates) ∧
      ∀ id ∈ server.pending, (id : Int) < s.offsetAfter updates → (id : Int) < s.offset ∨ id ∈ updates := by
  unfold PollingStream.offsetAfter
  split
  · rename_i last hlast
    have hmem := List.mem_of_getLast? hlast
    obtain ⟨hge, hlt⟩ := ha.above last hmem
    rw [asOffset_eq (Nat.lt_of_lt_of_le hlt h.bound)]
    refine ⟨by omega, by omega, fun id hid => ?_, fun id hid hid' => .inr ?_⟩
    · have := le_getLast ha.sorted hlast id hid
      omega
    · exact ha.whole id hid last hmem (by omega)
  · rename_i hlast
    rw [List.getLast?_eq_none_iff.1 hlast]
    exact ⟨Int.le_refl _, h.offset_le, by simp, fun id _ hid => .inl hid⟩

theorem Stored.received (h : Stored P s server late log) {updates : List Nat} (hfree : s.inFlight = none)
    (hbuf : s.buffer = []) (ha : Answer server s.offset updates) (hd : s.dropPendingUpdates = false) :
    Stored P { s with errorCount := 0, offset := s.offsetAfter updates, buffer := updates } server late
      (.received updates :: log) := by
  obtain ⟨hge, hle, hpass, hcover⟩ := h.offsetAfter ha (.inl (Int.le_refl _))
  have hflow := h.flow
  rw [hbuf, List.append_nil] at hflow
  exact
    { sorted := h.sorted
      below := h.below
      bound := h.bound
      offset_nonneg := Int.le_trans h.offset_nonneg hge
      offset_le := hle
      flow := by
        show UpdateListeners.received log ++ updates = yielded log ++ updates
        rw [hflow]
      increasing := by
        refine List.pairwise_append.2 ⟨h.increasing, ha.sorted, fun a hr b hu => ?_⟩
        have := h.passed a hr
        have := (ha.above b hu).1
        omega
      passed := by
        intro id hid
        rcases List.mem_append.1 hid with hid | hid
        · exact Int.lt_of_lt_of_le (h.passed id hid) hge
        · exact hpass id hid
      covered := by
        intro id hid hlt
        rcases hcover id hid hlt with hold | hnew
        · exact (h.covered id hid hold).imp_left (List.mem_append_left _)
        · exact .inl (List.mem_append_right _ hnew)
      dropping := fun hdrop => by rw [hd] at hdrop; cases hdrop
      inFlight := fun q hq => by rw [hfree] at hq; cases hq
      late := fun payload hp => (h.late payload hp).cons _
      allowed := splits_cons trivial h.allowed }

theorem Stored.dropped (h : Stored P s server late log) {updates : List Nat} (hfree : s.inFlight = none)
    (ha : Answer server (-1) updates) (hd : s.dropPendingUpdates = true) :
    Stored P { s with errorCount := 0, offset := s.offsetAfter updates, dropPendingUpdates := false } server late
      (.dropped updates :: log) := by
  obtain ⟨hconf, hzero, hnone⟩ := h.dropping hd
  obtain ⟨hge, hle, -, hcover⟩ := h.offsetAfter ha (.inr hzero)
  have hr : UpdateListeners.received (.dropped updates :: log) = [] := hnone
  exact
    { h with
      offset_nonneg := Int.le_trans h.offset_nonneg hge
      offset_le := hle
      passed := fun id hid => by rw [hr] at hid; cases hid
      covered := by
        intro id hid hlt
        rcases hcover id hid hlt with hold | hnew
        · have := h.offset_nonneg
          omega
        · exact .inr (List.mem_append_right _ hnew)
      dropping := fun hdrop => by cases hdrop
      inFlight := fun q hq => by rw [hfree] at hq; cases hq
      late := fun payload hp => (h.late payload hp).cons _
      allowed := splits_cons ⟨hconf, hnone⟩ h.allowed }

end Stored

/-! ## The updates through a step -/

/-- `Stored` of the parts of a system. -/
def Sys.Stored (P : Polling) (x : Sys) : Prop :=
  UpdateListeners.Stored P x.stream x.server x.late x.log

section StoredSteps

variable {P : Polling} {x : Sys}

theorem Sys.Stored.stop (h : x.Stored P) (meanwhile : Bool) : (x.stop meanwhile).Stored P := by
  unfold Sys.stop
  split
  · exact h
  · exact UpdateListeners.Stored.note h rfl trivial

theorem Sys.Stored.free (h : x.Stored P) : (x.setInFlight none).Stored P :=
  UpdateListeners.Stored.stream h rfl rfl rfl fun q hq => by cases hq

theorem Sys.Stored.abandon (h : x.Stored P) : x.abandon.Stored P := by
  unfold Sys.abandon
  split
  · rename_i payload hq
    have hspent := UpdateListeners.Stored.spent h hq (by simp)
    exact { h.free with late := List.forall_mem_cons.2 ⟨hspent, h.late⟩ }
  · exact h.free

theorem abandon_eq (x : Sys) : ∃ late, x.abandon = { x.setInFlight none with late := late } := by
  unfold Sys.abandon
  split
  · exact ⟨_, rfl⟩
  · exact ⟨x.late, rfl⟩

theorem abandon_log : x.abandon.log = x.log := by
  obtain ⟨late, h⟩ := abandon_eq x
  rw [h]
  rfl

theorem abandon_stream : x.abandon.stream = { x.stream with inFlight := none } := by
  obtain ⟨late, h⟩ := abandon_eq x
  rw [h]
  rfl

theorem Sys.Stored.notice (h : x.Stored P) : x.notice.Stored P := by
  have ha : UpdateListeners.Stored P x.abandon.stream x.abandon.server x.abandon.late x.abandon.log := h.abandon
  have hn := ha.note (e := .noticed) rfl trivial
  refine UpdateListeners.Stored.stream (s := x.abandon.stream) ?_ rfl rfl rfl fun q hq => ?_
  · rw [abandon_log] at hn
    exact hn
  · rw [show x.notice.stream.inFlight = x.abandon.stream.inFlight from rfl, abandon_stream] at hq
    cases hq

theorem Sys.Stored.send (h : x.Stored P) {q : Request} (hq : x.stream.inFlight = some q) (hbuf : x.stream.buffer = []) :
    (x.send q).Stored P ∧ ∃ q', (x.send q).stream.inFlight = some q' ∧ q'.wire ≠ .unsent ∧ q'.payload = q.payload ∧
      (∀ updates, q.wire = .answered updates ↔ q'.wire = .answered updates) := by
  have hb := h.inFlight q hq
  unfold Sys.send
  split
  · rename_i hw
    have hallowed : Allowed P (.sent q.payload.offset) x.log := by
      refine ⟨by have := h.flow; rwa [hbuf, List.append_nil] at this, fun hoff => ?_⟩
      have hbo := hb.offset
      have := h.offset_nonneg
      cases hd : x.stream.dropPendingUpdates with
      | true => exact ⟨(h.dropping hd).1, (h.dropping hd).2.2⟩
      | false =>
        rw [hd, Bool.false_and, if_neg (by decide)] at hbo
        omega
    have hasked := UpdateListeners.Stored.note h (e := .asked q.payload.allowedUpdates) rfl trivial
    have hn := UpdateListeners.Stored.note hasked (e := .sent q.payload.offset) rfl hallowed
    refine ⟨hn.stream rfl rfl rfl fun q' hq' => ?_, _, rfl, by simp, rfl, fun updates => by simp [hw]⟩
    obtain rfl := Option.some.inj hq'
    exact ⟨hb.offset, fun _ => ⟨hbuf, List.mem_cons_self⟩, fun updates hw' => by cases hw'⟩
  · rename_i hw
    exact ⟨h, q, hq, by simpa using hw, rfl, fun _ => Iff.rfl⟩

theorem send_stream (q : Request) : ∃ inFlight, (x.send q).stream = { x.stream with inFlight := inFlight } := by
  unfold Sys.send
  split
  · exact ⟨_, rfl⟩
  · exact ⟨x.stream.inFlight, rfl⟩

theorem answered_stream (q : Request) : (x.answered q).1.stream = x.stream := by
  unfold Sys.answered
  split <;> rfl

theorem Sys.Stored.answered (h : x.Stored P) {q q' : Request} (hq : x.stream.inFlight = some q')
    (hw : q'.wire ≠ .unsent) (hp : q'.payload = q.payload)
    (ha : ∀ updates, q.wire = .answered updates ↔ q'.wire = .answered updates) :
    (x.answered q).1.Stored P ∧ Answer (x.answered q).1.server q.payload.offset (x.answered q).2 := by
  have hspent := UpdateListeners.Stored.spent h hq hw
  rw [hp] at hspent
  unfold Sys.answered
  split
  · rename_i updates hwire
    refine ⟨h, ?_⟩
    rw [← hp]
    exact (h.inFlight q' hq).answered updates ((ha updates).1 hwire)
  · have hge : -1 ≤ q.payload.offset := by
      rcases hspent.covers with hc | ⟨hc, -⟩ <;> omega
    exact ⟨UpdateListeners.Stored.process h hspent, Server.answer_answers h.sorted h.below hge⟩

theorem Sys.Stored.finish (h : x.Stored P) (hbuf : x.stream.buffer = []) : x.finish.Stored P := by
  refine UpdateListeners.Stored.note h rfl ?_
  have := h.flow
  rwa [hbuf, List.append_nil] at this

theorem Sys.Stored.completed (h : x.Stored P) (hfree : x.stream.inFlight = none) (hbuf : x.stream.buffer = [])
    {offset : Int} {updates : List Nat} (ha : Answer x.server offset updates)
    (ho : offset = if x.stream.dropPendingUpdates && !x.stream.stopping then -1 else x.stream.offset) :
    (x.completed P updates).Stored P := by
  unfold Sys.completed
  split
  · exact h.finish hbuf
  · rename_i hstop
    refine UpdateListeners.Stored.request (s := (x.keep updates).stream) ?_
    unfold Sys.keep
    split
    · rename_i hd
      rw [hd, Bool.false_and, if_neg (by decide)] at ho
      exact UpdateListeners.Stored.received h hfree hbuf (ho ▸ ha) hd
    · rename_i hd
      have ho' : offset = -1 := by
        rw [ho, hd, Bool.eq_false_iff.2 hstop]
        rfl
      exact UpdateListeners.Stored.dropped h hfree (ho' ▸ ha) hd

theorem Sys.Stored.failed (h : x.Stored P) (hfree : x.stream.inFlight = none) (retryAfter : Option Nat) :
    (x.failed P retryAfter).Stored P := by
  have hfree' : ∀ q, x.stream.inFlight = some q → False := fun q hq => by rw [hfree] at hq; cases hq
  have hn : UpdateListeners.Stored P x.stream x.server x.late (.failed :: x.log) :=
    UpdateListeners.Stored.note h rfl trivial
  unfold Sys.failed
  split
  · exact hn.stream rfl rfl rfl fun q hq => (hfree' q hq).elim
  · split
    · exact hn.stream rfl rfl rfl fun q hq => (hfree' q hq).elim
    · exact hn.stream rfl rfl rfl fun q hq => (hfree' q hq).elim

theorem Sys.Stored.pollInFlight (h : x.Stored P) {q : Request} (hq : x.stream.inFlight = some q)
    (hbuf : x.stream.buffer = []) (reply : Reply) : (x.pollInFlight P q reply).Stored P := by
  obtain ⟨hsent, q', hq', hw, hp, hans⟩ := h.send hq hbuf
  obtain ⟨f, hstream⟩ := send_stream (x := x) q
  unfold Sys.pollInFlight
  cases reply with
  | pending => exact hsent
  | ok =>
    obtain ⟨hdone, ha⟩ := hsent.answered hq' hw hp hans
    refine hdone.free.completed rfl ?_ ha ?_
    · show ((x.send q).answered q).1.stream.buffer = []
      rw [answered_stream, hstream]
      exact hbuf
    · have ho := (h.inFlight q hq).offset
      show q.payload.offset = if ((x.send q).answered q).1.stream.dropPendingUpdates &&
        !((x.send q).answered q).1.stream.stopping then -1 else ((x.send q).answered q).1.stream.offset
      rw [answered_stream, hstream]
      exact ho
  | err retryAfter =>
    refine hsent.abandon.failed ?_ retryAfter
    rw [abandon_stream]

theorem Sys.Stored.pollFutures (h : x.Stored P) (hbuf : x.stream.buffer = []) (moment : Moment) :
    (x.pollFutures P moment).Stored P := by
  unfold Sys.pollFutures
  split
  · rename_i q hq
    exact h.pollInFlight hq hbuf _
  · rename_i hq
    split
    · split
      · exact UpdateListeners.Stored.request
          (UpdateListeners.Stored.stream h rfl rfl rfl fun q hq' => by rw [hq] at hq'; cases hq')
      · exact h
    · exact UpdateListeners.Stored.request h

theorem stop_stream (meanwhile : Bool) : (x.stop meanwhile).stream = x.stream := by
  unfold Sys.stop
  split <;> rfl

/-- After `force_stop` there is nothing left in the buffer, which `hforced` says. -/
theorem Sys.Stored.poll (h : x.Stored P) (hforced : x.stream.forceStop = true → x.stream.buffer = [])
    (moment : Moment) : (x.poll P moment).Stored P := by
  unfold Sys.poll
  split
  · rename_i hf
    exact h.finish (hforced hf)
  · split
    · rename_i update buffer hbuf
      exact UpdateListeners.Stored.yieldNext h hbuf
    · rename_i hbuf
      split
      · exact UpdateListeners.Stored.request h.notice
      · split
        · exact (h.stop true).pollFutures (by rw [stop_stream]; exact hbuf) moment
        · exact h.pollFutures hbuf moment

theorem Sys.Stored.serve (h : x.Stored P) {x' : Sys} (hs : x.serve = some x') : x'.Stored P := by
  unfold Sys.serve at hs
  split at hs
  · rename_i payload hq
    obtain rfl := Option.some.inj hs
    have hspent : Spent x.server x.log payload.offset := UpdateListeners.Stored.spent h hq (by simp)
    have hbuilt := h.inFlight _ hq
    have hge : -1 ≤ payload.offset := by
      rcases hspent.covers with hc | ⟨hc, -⟩ <;> omega
    refine (UpdateListeners.Stored.process h hspent).stream rfl rfl rfl fun q' hq' => ?_
    obtain rfl := Option.some.inj hq'
    refine ⟨hbuilt.offset, fun _ => (hbuilt.sent (by simp)).imp_right (List.mem_cons_of_mem _), fun updates hw => ?_⟩
    obtain rfl := Wire.answered.inj hw
    exact Server.answer_answers h.sorted h.below hge
  · cases hs

theorem Sys.Stored.serveLate (h : x.Stored P) {request : Nat} {x' : Sys} (hs : x.serveLate request = some x') :
    x'.Stored P := by
  unfold Sys.serveLate at hs
  obtain ⟨payload, hp, rfl⟩ := Option.map_eq_some_iff.1 hs
  have hspent := h.late payload (List.mem_of_getElem? hp)
  have hdone := UpdateListeners.Stored.process h hspent
  exact { hdone with late := fun other ho => hdone.late other (List.mem_of_mem_eraseIdx ho) }

end StoredSteps

/-! ## Stopping -/

def PollingStream.unsent (s : PollingStream) : Nat :=
  match s.inFlight with
  | some ⟨_, .unsent⟩ => 1
  | _ => 0

theorem PollingStream.unsent_le_one (s : PollingStream) : s.unsent ≤ 1 := by
  unfold unsent
  split <;> omega

/-- The requests there may still be, counted with those sent since. -/
structure Halting (s : PollingStream) (stopped ended : Bool) (log : List Entry) : Prop where
  unstopped : stopped = false → ∀ meanwhile, .stopped meanwhile ∉ log
  unnoticed : s.stopping = false → .noticed ∉ log
  stopping : s.stopping = true → stopped = true ∧ s.buffer = []
  halted : s.forceStop = true ∨ ended = true → s.stopping = true ∧ s.inFlight = none
  held : s.stopping = true → s.forceStop = true ∨ ended = true ∨ s.inFlight ≠ none
  noticed : ∀ after before, log = after ++ .noticed :: before → sends after + s.unsent ≤ 1
  stopped : ∀ after meanwhile before, log = after ++ .stopped meanwhile :: before →
    sends after + (if s.stopping then s.unsent else 0) ≤ meanwhile.toNat + s.stopping.toNat

/-- An entry that neither stops nor sends. -/
def Entry.idle : Entry → Bool
  | .stopped _ | .noticed | .sent _ => false
  | _ => true

section Halting

variable {P : Polling} {s : PollingStream} {stopped ended : Bool} {log : List Entry}

theorem sends_cons_idle {e : Entry} (he : e.idle = true) (log : List Entry) : sends (e :: log) = sends log := by
  cases e <;> first | rfl | cases he

/-- The marks of a log are those of the log before an entry that is none. -/
theorem split_of_cons {e mark : Entry} (he : e ≠ mark) {after before : List Entry}
    (h : e :: log = after ++ mark :: before) : ∃ after', after = e :: after' ∧ log = after' ++ mark :: before := by
  cases after with
  | nil => exact absurd (List.cons.inj h).1 he
  | cons e' after =>
    obtain ⟨he', hlog⟩ := List.cons.inj h
    exact ⟨after, by rw [he'], hlog⟩

theorem Halting.note (h : Halting s stopped ended log) {e : Entry} (he : e.idle = true) :
    Halting s stopped ended (e :: log) := by
  have hstopped : ∀ meanwhile, e ≠ .stopped meanwhile := fun m hm => by subst hm; cases he
  have hnoticed : e ≠ .noticed := fun hm => by subst hm; cases he
  exact
    { h with
      unstopped := fun hs m hm => by
        rcases List.mem_cons.1 hm with hm | hm
        · exact hstopped m hm.symm
        · exact h.unstopped hs m hm
      unnoticed := fun hs hm => by
        rcases List.mem_cons.1 hm with hm | hm
        · exact hnoticed hm.symm
        · exact h.unnoticed hs hm
      noticed := fun after before hsplit => by
        obtain ⟨after', rfl, hlog⟩ := split_of_cons hnoticed hsplit
        rw [sends_cons_idle he]
        exact h.noticed after' before hlog
      stopped := fun after m before hsplit => by
        obtain ⟨after', rfl, hlog⟩ := split_of_cons (hstopped m) hsplit
        rw [sends_cons_idle he]
        exact h.stopped after' m before hlog }

/-- A stream that is not stopping owes nothing. -/
theorem Halting.running (h : Halting s stopped ended log) (hs : s.stopping = false) {s' : PollingStream}
    (hs' : s'.stopping = false) (hf : s'.forceStop = false) : Halting s' stopped ended log where
  unstopped := h.unstopped
  unnoticed _ := h.unnoticed hs
  stopping hst := by rw [hs'] at hst; cases hst
  halted ho := by
    rw [hf] at ho
    have := (h.halted (.inr (ho.resolve_left (by decide)))).1
    rw [hs] at this
    cases this
  held hst := by rw [hs'] at hst; cases hst
  noticed after before hlog := absurd (hlog ▸ List.mem_append_right _ List.mem_cons_self) (h.unnoticed hs)
  stopped after m before hlog := by
    have := h.stopped after m before hlog
    rw [hs] at this
    rw [hs']
    exact this

/-- A stopping stream that is done with its request is over. -/
theorem Halting.settle (h : Halting s stopped ended log) (hs : s.stopping = true) {s' : PollingStream} {ended' : Bool}
    (hs' : s'.stopping = true) (hb : s'.buffer = s.buffer) (hfree : s'.inFlight = none)
    (ho : s'.forceStop = true ∨ ended' = true) : Halting s' stopped ended' log where
  unstopped := h.unstopped
  unnoticed hst := by rw [hs'] at hst; cases hst
  stopping _ := hb ▸ h.stopping hs
  halted _ := ⟨hs', hfree⟩
  held _ := ho.imp_right .inl
  noticed after before hlog := by
    have hu : s'.unsent = 0 := by rw [PollingStream.unsent, hfree]
    have := h.noticed after before hlog
    omega
  stopped after m before hlog := by
    have hu : s'.unsent = 0 := by rw [PollingStream.unsent, hfree]
    have := h.stopped after m before hlog
    rw [hs] at this
    rw [hu, hs', if_pos rfl]
    exact Nat.le_trans (Nat.le_add_right _ _) this

/-- The flag is not set, or has been set under the poll that sends. -/
def Spare (s : PollingStream) (log : List Entry) : Prop :=
  s.stopping = false → ∀ after meanwhile before, log = after ++ .stopped meanwhile :: before →
    sends after < meanwhile.toNat

theorem Spare.note (h : Spare s log) {e : Entry} (he : e.idle = true) : Spare s (e :: log) := by
  intro hs after meanwhile before hsplit
  obtain ⟨after', rfl, hlog⟩ := split_of_cons (fun hm => by subst hm; cases he) hsplit
  rw [sends_cons_idle he]
  exact h hs after' meanwhile before hlog

theorem Halting.send (h : Halting s stopped ended log) (hspare : Spare s log) {q : Request}
    (hq : s.inFlight = some q) (hw : q.wire = .unsent) (offset : Int) :
    Halting { s with inFlight := some { q with wire := .sent } } stopped ended (.sent offset :: log) where
  unstopped hs m hm := by
    rcases List.mem_cons.1 hm with hm | hm
    · cases hm
    · exact h.unstopped hs m hm
  unnoticed hs hm := by
    rcases List.mem_cons.1 hm with hm | hm
    · cases hm
    · exact h.unnoticed hs hm
  stopping := h.stopping
  halted ho := by
    have := (h.halted ho).2
    rw [hq] at this
    cases this
  held _ := .inr (.inr (by simp))
  noticed after before hsplit := by
    have hu : s.unsent = 1 := by obtain ⟨payload, wire⟩ := q; cases hw; rw [PollingStream.unsent, hq]
    obtain ⟨after', rfl, hlog⟩ := split_of_cons (by simp) hsplit
    have := h.noticed after' before hlog
    show sends after' + 1 + 0 ≤ 1
    omega
  stopped after m before hsplit := by
    have hu : s.unsent = 1 := by obtain ⟨payload, wire⟩ := q; cases hw; rw [PollingStream.unsent, hq]
    obtain ⟨after', rfl, hlog⟩ := split_of_cons (by simp) hsplit
    have hcount := h.stopped after' m before hlog
    show sends after' + 1 + (if s.stopping then 0 else 0) ≤ m.toNat + s.stopping.toNat
    cases hs : s.stopping with
    | true =>
      rw [hs, if_pos rfl, hu] at hcount
      simpa using hcount
    | false =>
      exact hspare hs after' m before hlog

theorem Halting.serve (h : Halting s stopped ended log) {payload : GetUpdates}
    (hq : s.inFlight = some ⟨payload, .sent⟩) (updates : List Nat) :
    Halting { s with inFlight := some ⟨payload, .answered updates⟩ } stopped ended log where
  unstopped := h.unstopped
  unnoticed := h.unnoticed
  stopping := h.stopping
  halted ho := by
    have := (h.halted ho).2
    rw [hq] at this
    cases this
  held _ := .inr (.inr (by simp))
  noticed after before hlog := Nat.le_trans (Nat.le_add_right _ _) (h.noticed after before hlog)
  stopped after m before hlog := by
    refine Nat.le_trans ?_ (h.stopped after m before hlog)
    show sends after + (if s.stopping then 0 else 0) ≤ _
    rw [ite_self]
    exact Nat.le_add_right _ _

theorem Halting.yieldNext (h : Halting s stopped ended log) {update : Nat} {buffer : List Nat}
    (hb : s.buffer = update :: buffer) (hf : s.forceStop = false) :
    Halting { s with buffer := buffer } stopped ended (.yielded update :: log) := by
  have hs : s.stopping = false := by
    refine Bool.eq_false_iff.2 fun hs => ?_
    have := (h.stopping hs).2
    rw [hb] at this
    cases this
  exact (h.note rfl).running hs hs hf

/-- Setting the flag between two polls. -/
theorem Halting.stop (h : Halting s false ended log) (meanwhile : Bool) :
    Halting s true ended (.stopped meanwhile :: log) where
  unstopped hs := by cases hs
  unnoticed hs hm := by
    rcases List.mem_cons.1 hm with hm | hm
    · cases hm
    · exact h.unnoticed hs hm
  stopping hs := by have := (h.stopping hs).1; cases this
  halted := h.halted
  held := h.held
  noticed after before hsplit := by
    obtain ⟨after', rfl, hlog⟩ := split_of_cons (by simp) hsplit
    exact h.noticed after' before hlog
  stopped after m before hsplit := by
    have hs : s.stopping = false := Bool.eq_false_iff.2 fun hs => by have := (h.stopping hs).1; cases this
    rw [hs]
    cases after with
    | nil => exact Nat.zero_le _
    | cons e after =>
      exact absurd ((List.cons.inj hsplit).2 ▸ List.mem_append_right _ List.mem_cons_self) (h.unstopped rfl m)

/-- The poll that finds the flag set replaces the request. -/
theorem Halting.notice (h : Halting s true ended log) (hs : s.stopping = false) {s' : PollingStream}
    (hs' : s'.stopping = true) (hb : s'.buffer = []) (hq : s'.inFlight ≠ none) (hf : s'.forceStop = false) :
    Halting s' true ended (.noticed :: log) where
  unstopped hst := by cases hst
  unnoticed hst := by rw [hs'] at hst; cases hst
  stopping _ := ⟨rfl, hb⟩
  halted ho := by
    rw [hf] at ho
    have := (h.halted (.inr (ho.resolve_left (by decide)))).1
    rw [hs] at this
    cases this
  held _ := .inr (.inr hq)
  noticed after before hsplit := by
    cases after with
    | nil => exact Nat.le_trans (Nat.le_of_eq (Nat.zero_add _)) s'.unsent_le_one
    | cons e after =>
      exact absurd ((List.cons.inj hsplit).2 ▸ List.mem_append_right _ List.mem_cons_self) (h.unnoticed hs)
  stopped after m before hsplit := by
    obtain ⟨after', rfl, hlog⟩ := split_of_cons (by simp) hsplit
    have hcount := h.stopped after' m before hlog
    have := s'.unsent_le_one
    rw [hs] at hcount
    rw [hs', if_pos rfl]
    show sends after' + s'.unsent ≤ m.toNat + 1
    simp only [Bool.false_eq_true, if_false, Bool.toNat_false, Nat.add_zero] at hcount
    omega

end Halting

/-- `Halting` of the parts of a system. -/
def Sys.Halting (x : Sys) : Prop :=
  UpdateListeners.Halting x.stream x.stopped x.ended x.log

section HaltingSteps

variable {P : Polling} {x : Sys}

theorem Sys.Halting.stop (h : x.Halting) (meanwhile : Bool) : (x.stop meanwhile).Halting := by
  unfold Sys.stop
  split
  · exact h
  · rename_i hs
    have h' : UpdateListeners.Halting x.stream false x.ended x.log := Bool.eq_false_iff.2 hs ▸ h
    exact h'.stop meanwhile

theorem Sys.Halting.process (h : x.Halting) (payload : GetUpdates) : (x.process payload).Halting :=
  UpdateListeners.Halting.note h rfl

theorem Sys.Halting.send (h : x.Halting) (hspare : Spare x.stream x.log) {q : Request}
    (hq : x.stream.inFlight = some q) : (x.send q).Halting := by
  unfold Sys.send
  split
  · rename_i hw
    exact UpdateListeners.Halting.send (UpdateListeners.Halting.note h (e := .asked q.payload.allowedUpdates) rfl)
      (hspare.note rfl) hq hw _
  · exact h

theorem Sys.Halting.answered (h : x.Halting) (q : Request) : (x.answered q).1.Halting := by
  unfold Sys.answered
  split
  · exact h
  · exact h.process _

theorem Sys.Halting.finish (h : x.Halting) (hs : x.stream.stopping = true) : (x.setInFlight none).finish.Halting := by
  have hover : UpdateListeners.Halting { x.stream with inFlight := none } x.stopped true x.log :=
    UpdateListeners.Halting.settle h hs hs rfl rfl (.inr rfl)
  exact hover.note rfl

/-- The request has completed, on a stream that still polls. -/
theorem Sys.Halting.completed (h : x.Halting) (hf : x.stream.forceStop = false) (updates : List Nat) :
    ((x.setInFlight none).completed P updates).Halting := by
  unfold Sys.completed
  split
  · rename_i hs
    exact h.finish hs
  · rename_i hs
    have hs : x.stream.stopping = false := Bool.eq_false_iff.2 hs
    unfold Sys.keep
    split
    · have hn : UpdateListeners.Halting x.stream x.stopped x.ended (.received updates :: x.log) :=
        UpdateListeners.Halting.note h rfl
      exact hn.running hs hs hf
    · have hn : UpdateListeners.Halting x.stream x.stopped x.ended (.dropped updates :: x.log) :=
        UpdateListeners.Halting.note h rfl
      exact hn.running hs hs hf

theorem Sys.Halting.failed (h : x.Halting) (hf : x.stream.forceStop = false) (retryAfter : Option Nat) :
    (x.abandon.failed P retryAfter).Halting := by
  have hn : UpdateListeners.Halting x.stream x.stopped x.ended (.failed :: x.log) := UpdateListeners.Halting.note h rfl
  obtain ⟨late, ha⟩ := abandon_eq x
  rw [ha]
  unfold Sys.failed
  split
  · rename_i hs
    have hover : UpdateListeners.Halting { x.stream with inFlight := none, forceStop := true } x.stopped x.ended
        (.failed :: x.log) := hn.settle hs hs rfl rfl (.inl rfl)
    exact hover
  · rename_i hs
    have hs : x.stream.stopping = false := Bool.eq_false_iff.2 hs
    split <;> exact hn.running hs hs hf

theorem Sys.Halting.pollInFlight (h : x.Halting) (hf : x.stream.forceStop = false) (hspare : Spare x.stream x.log)
    {q : Request} (hq : x.stream.inFlight = some q) (reply : Reply) : (x.pollInFlight P q reply).Halting := by
  have hsent := h.send hspare hq
  obtain ⟨f, hstream⟩ := send_stream (x := x) q
  have hf' : (x.send q).stream.forceStop = false := by rw [hstream]; exact hf
  unfold Sys.pollInFlight
  cases reply with
  | pending => exact hsent
  | ok => exact (hsent.answered q).completed (by rw [answered_stream]; exact hf') _
  | err retryAfter => exact hsent.failed hf' retryAfter

theorem Sys.Halting.pollFutures (h : x.Halting) (hf : x.stream.forceStop = false) (he : x.ended = false)
    (hspare : Spare x.stream x.log) (moment : Moment) : (x.pollFutures P moment).Halting := by
  unfold Sys.pollFutures
  split
  · rename_i q hq
    exact h.pollInFlight hf hspare hq _
  · rename_i hq
    have hs : x.stream.stopping = false := by
      refine Bool.eq_false_iff.2 fun hs => ?_
      rcases h.held hs with hf' | he' | hq'
      · rw [hf] at hf'; cases hf'
      · rw [he] at he'; cases he'
      · exact hq' hq
    split
    · split
      · exact UpdateListeners.Halting.running h hs hs hf
      · exact h
    · exact UpdateListeners.Halting.running h hs hs hf

theorem Sys.Halting.notice (h : x.Halting) (hs : x.stream.stopping = false) (hst : x.stopped = true)
    (hb : x.stream.buffer = []) (hf : x.stream.forceStop = false) : (x.notice.request P).Halting := by
  obtain ⟨late, ha⟩ := abandon_eq x
  have h' : UpdateListeners.Halting x.stream true x.ended x.log := hst ▸ h
  have hnoticed : UpdateListeners.Halting (x.notice.request P).stream true x.ended (.noticed :: x.log) := by
    unfold Sys.notice
    rw [ha]
    exact h'.notice hs rfl hb (by simp [Sys.request, PollingStream.request]) hf
  unfold Sys.notice at hnoticed ⊢
  rw [ha] at hnoticed ⊢
  exact hst ▸ hnoticed

theorem Sys.Halting.poll (h : x.Halting) (he : x.ended = false) (moment : Moment) : (x.poll P moment).Halting := by
  unfold Sys.poll
  split
  · rename_i hf
    obtain ⟨hs, hfree⟩ := h.halted (.inl hf)
    have hover : UpdateListeners.Halting x.stream x.stopped true x.log :=
      UpdateListeners.Halting.settle h hs hs rfl hfree (.inr rfl)
    exact hover.note rfl
  · rename_i hf
    have hf : x.stream.forceStop = false := Bool.eq_false_iff.2 hf
    split
    · rename_i update buffer hb
      exact UpdateListeners.Halting.yieldNext h hb hf
    · rename_i hb
      split
      · rename_i hst
        simp only [Bool.and_eq_true, Bool.not_eq_true'] at hst
        exact h.notice hst.1 hst.2 hb hf
      · rename_i hst
        have hquiet : x.stream.stopping = false → x.stopped = false := by
          intro hs
          rw [hs] at hst
          exact Bool.eq_false_iff.2 fun hst' => hst (by rw [hst']; rfl)
        split
        · refine (h.stop true).pollFutures ?_ ?_ ?_ moment
          · rw [stop_stream]; exact hf
          · unfold Sys.stop; split <;> exact he
          · -- the flag has just been set
            intro hs after meanwhile before hlog
            rw [stop_stream] at hs
            have hunset := hquiet hs
            rw [Sys.stop, hunset, if_neg (by decide)] at hlog
            cases after with
            | nil =>
              obtain ⟨hm, -⟩ := List.cons.inj hlog
              obtain rfl := Entry.stopped.inj hm
              exact Nat.zero_lt_one
            | cons e after =>
              exact absurd ((List.cons.inj hlog).2 ▸ List.mem_append_right _ List.mem_cons_self)
                (h.unstopped hunset meanwhile)
        · refine h.pollFutures hf he ?_ moment
          intro hs after meanwhile before hlog
          exact absurd (hlog ▸ List.mem_append_right _ List.mem_cons_self) (h.unstopped (hquiet hs) meanwhile)

end HaltingSteps

/-! ## Every run -/

/-- What holds of the log of a listener; `before` is what happened earlier. -/
structure OffsetProtocol (P : Polling) (log : List Entry) : Prop where
  /-- no update is yielded twice or out of order -/
  increasing : (yielded log).Pairwise (· < ·)
  /-- what a request confirms was yielded, or `drop_pending_updates` has thrown it away -/
  confirmed : ∀ after offset updates before, log = after ++ .confirmed offset updates :: before →
    .sent offset ∈ before ∧ (offset = -1 ∨ ∀ id ∈ updates, id ∈ yielded before ∨ id ∈ dropped before)
  /-- the request that drops is sent before anything has come out -/
  dropping : ∀ after before, log = after ++ .sent (-1) :: before →
    P.dropPendingUpdates = true ∧ received before = []
  dropped : ∀ after updates before, log = after ++ .dropped updates :: before →
    P.dropPendingUpdates = true ∧ received before = []
  /-- the buffer is yielded before a request is sent and before the end -/
  buffered : ∀ after e before, log = after ++ e :: before → (e = .ended ∨ ∃ offset, e = .sent offset) →
    received before = yielded before
  /-- one request once the stream has noticed the flag -/
  noticed : ∀ after before, log = after ++ .noticed :: before → sends after ≤ 1
  /-- one since the flag was set, and that of the poll under which it was -/
  stopped : ∀ after meanwhile before, log = after ++ .stopped meanwhile :: before →
    sends after ≤ if meanwhile then 2 else 1

section Runs

variable {P : Polling} {x x' : Sys}

theorem Start.inv (h : Start P x) : x.Stored P ∧ x.Halting := by
  obtain ⟨s, server, late, stopped, ended, log⟩ := x
  obtain ⟨rfl, hsorted, hbelow, hbound, rfl, rfl, rfl, rfl⟩ := h
  constructor
  · exact
      { sorted := hsorted
        below := hbelow
        bound := hbound
        offset_nonneg := Int.le_refl 0
        offset_le := Int.natCast_nonneg _
        flow := rfl
        increasing := .nil
        passed := nofun
        covered := fun id _ hlt => absurd hlt (by show ¬ (id : Int) < 0; omega)
        dropping := fun hd => ⟨hd, rfl, rfl⟩
        inFlight := nofun
        late := nofun
        allowed := fun after e before hlog => by simp at hlog }
  · exact
      { unstopped := nofun
        unnoticed := nofun
        stopping := nofun
        halted := fun ho => by rcases ho with ho | ho <;> cases ho
        held := nofun
        noticed := fun after before hlog => by simp at hlog
        stopped := fun after m before hlog => by simp at hlog }

theorem step_inv (h : x.Stored P ∧ x.Halting) {a : Action} (hs : step P x a = some x') :
    x'.Stored P ∧ x'.Halting := by
  obtain ⟨hst, hh⟩ := h
  cases a with
  | arrive id =>
    simp only [step, Sys.arrive] at hs
    split at hs
    · rename_i hid
      obtain rfl := Option.some.inj hs
      exact ⟨UpdateListeners.Stored.arrive hst hid.1 hid.2, hh⟩
    · cases hs
  | stop =>
    obtain rfl := Option.some.inj hs
    exact ⟨hst.stop false, hh.stop false⟩
  | serve =>
    refine ⟨hst.serve hs, ?_⟩
    simp only [step, Sys.serve] at hs
    split at hs
    · rename_i payload hq
      obtain rfl := Option.some.inj hs
      exact UpdateListeners.Halting.serve (hh.process payload) hq _
    · cases hs
  | serveLate request =>
    refine ⟨hst.serveLate hs, ?_⟩
    simp only [step, Sys.serveLate] at hs
    obtain ⟨payload, -, rfl⟩ := Option.map_eq_some_iff.1 hs
    exact hh.process payload
  | poll moment =>
    simp only [step] at hs
    split at hs
    · cases hs
    · rename_i he
      obtain rfl := Option.some.inj hs
      exact ⟨hst.poll (fun hf => (hh.stopping (hh.halted (.inl hf)).1).2) moment,
        hh.poll (Bool.eq_false_iff.2 he) moment⟩

/-- The two invariants are the protocol. -/
theorem protocol_of_inv (h : x.Stored P ∧ x.Halting) : OffsetProtocol P x.log where
  increasing := by
    have hflow := h.1.flow
    have hinc := h.1.increasing
    rw [hflow] at hinc
    exact (List.pairwise_append.1 hinc).1
  confirmed after offset updates before hlog := h.1.allowed _ _ _ hlog
  dropping after before hlog := (h.1.allowed _ _ _ hlog).2 rfl
  dropped after updates before hlog := h.1.allowed _ _ _ hlog
  buffered after e before hlog he := by
    have ha := h.1.allowed _ _ _ hlog
    rcases he with rfl | ⟨offset, rfl⟩
    · exact ha
    · exact ha.1
  noticed after before hlog := Nat.le_trans (Nat.le_add_right _ _) (h.2.noticed after before hlog)
  stopped after meanwhile before hlog := by
    have hcount := Nat.le_trans (Nat.le_add_right _ _) (h.2.stopped after meanwhile before hlog)
    have hs := x.stream.stopping.toNat_le
    cases meanwhile
    · exact Nat.le_trans hcount (by simpa using hs)
    · exact Nat.le_trans hcount (by simpa [Nat.add_comm] using hs)

/-- In every run the listener keeps the offset protocol. -/
theorem offset_protocol {τ : List Unit} (hr : (machine P).Run Machine.anything τ x) : OffsetProtocol P x.log := by
  have hinv : x.Stored P ∧ x.Halting :=
    Machine.Run.induct (I := fun _ x => x.Stored P ∧ x.Halting) (fun _ h => Start.inv h)
      (fun _ _ _ _ _ _ h _ hs => by
        obtain ⟨x₁, hx, heq⟩ := Option.map_eq_some_iff.1 hs
        cases heq
        exact step_inv h hx) hr
  exact protocol_of_inv hinv

end Runs

/-- A listener that drops pending updates. -/
def dropping : Polling := ⟨some 10, none, none, true, fun _ => 1⟩

def fresh (P : Polling) (server : Server) : Sys := ⟨P.asStream, server, [], false, false, []⟩

/-- A poll that meets this reply. -/
def meets (reply : Reply) : Action := .poll ⟨false, reply, true⟩

/-- Two updates are waiting; the next one is yielded, and a failed request is
sent again before the listener stops. -/
def droppingRun : List Action :=
  [meets .pending, meets .ok, .arrive 7, meets .ok, meets .pending, meets (.err none), meets .pending, .stop,
    meets .pending, meets .ok]

theorem offset_protocol_dropping : ∃ τ x, (machine dropping).Run Machine.anything τ x ∧
    yielded x.log = [7] ∧ dropped x.log = [5] ∧ sends x.log = 4 ∧ x.ended = true ∧ OffsetProtocol dropping x.log := by
  have h : ((machine dropping).exec Machine.anything [] (fresh dropping ⟨[3, 5], 6⟩) droppingRun).map
      (fun r => (yielded r.2.log, dropped r.2.log, sends r.2.log, r.2.ended)) = some ([7], [5], 4, true) := by decide
  obtain ⟨⟨τ, x⟩, he, hs⟩ := Option.map_eq_some_iff.mp h
  simp only [Prod.mk.injEq] at hs
  have hstart : Start dropping (fresh dropping ⟨[3, 5], 6⟩) := ⟨rfl, by decide, by decide, by decide, rfl, rfl, rfl, rfl⟩
  have hr := Machine.run_of_exec (.start hstart) he
  exact ⟨τ, x, hr, hs.1, hs.2.1, hs.2.2.1, hs.2.2.2, offset_protocol hr⟩

/-- The flag is set under the poll that sends the first request. -/
def stoppedMeanwhile : List Action :=
  [meets .pending, .poll ⟨true, .pending, false⟩, meets .pending, meets .pending]

/-- Two requests may be sent once the flag is set. -/
theorem two_sends_after_stop : ¬ ∀ P τ x, (machine P).Run Machine.anything τ x →
    ∀ after meanwhile before, x.log = after ++ .stopped meanwhile :: before → sends after ≤ 1 := by
  intro hall
  have h : ((machine dropping).exec Machine.anything [] (fresh dropping ⟨[], 1⟩) stoppedMeanwhile).map (·.2.log) =
      some ([.sent 0, .asked none, .noticed, .sent (-1), .asked none] ++ .stopped true :: []) := by decide
  obtain ⟨⟨τ, x⟩, he, hlog⟩ := Option.map_eq_some_iff.mp h
  have hstart : Start dropping (fresh dropping ⟨[], 1⟩) := ⟨rfl, by decide, by decide, by decide, rfl, rfl, rfl, rfl⟩
  exact absurd (hall _ _ _ (Machine.run_of_exec (.start hstart) he) _ _ _ hlog) (by decide)

end Teloxide.UpdateListeners
