import Teloxide.Outbox.Store

/-!
# Fencing by leases

A record is held under one lease at a time, and whoever holds an older one can
no longer change it. `RecordStep` says what an operation can do to one record;
the leases that are out are read off the events.

* `act_records`: every operation changes every record by a `RecordStep`.
* `LeaseBook`: of the leases that are out on a record, all but the one it is
  claimed under have run out.
* `outbox_fenced`: the guarantees, for every run of any number of workers.
-/
namespace Teloxide.Outbox

open Teloxide.Core Teloxide.Outbound

/-- The same holder and the same token: what a store compares. -/
def OutboxLease.sameFence (a b : OutboxLease) : Bool := a.worker == b.worker && a.token == b.token

theorem OutboxLease.sameFence_iff {a b : OutboxLease} :
    a.sameFence b = true ↔ a.worker = b.worker ∧ a.token = b.token := by
  simp [sameFence]

theorem leaseIsCurrent_iff {status : InMemoryStatus} {lease : OutboxLease} {now : Nat} :
    leaseIsCurrent status lease now = true ↔
      ∃ current, status = .claimed current ∧ current.sameFence lease = true ∧ now < current.deadline := by
  cases status <;> simp [leaseIsCurrent, OutboxLease.sameFence]

/-! ## What happens to a record -/

/-- The event gives out, extends or ends a lease on the record. -/
def StoreEvent.grips (id : OutboxId) : StoreEvent → Bool
  | .claimed claims => claims.any (·.id == id)
  | .renewed id' _ (.ok _) | .settled id' _ (.ok _) => id' == id
  | _ => false

/-- The lease under which an operation has been accepted. -/
def StoreEvent.accepted : StoreEvent → Option (OutboxId × OutboxLease)
  | .renewed id lease (.ok _) | .began id lease (.ok _) | .settled id lease (.ok _) => some (id, lease)
  | _ => none

/-- What one operation at `now` can do to the record under `id`; tokens up to
`floor` have been given out before. -/
inductive RecordStep (floor now : Nat) (id : OutboxId) (e : StoreEvent) :
    Option InMemoryRecord → Option InMemoryRecord → Prop
  | same {o} : e.grips id = false → RecordStep floor now id e o o
  | inserted {request} : e = .enqueued request (.ok (.inserted id)) →
      RecordStep floor now id e none (some ⟨request, 0, 0, .pending, none⟩)
  | reverted {record lease} : record.status = .claimed lease → lease.deadline ≤ now → e.grips id = false →
      RecordStep floor now id e (some record) (some { record with status := .pending })
  | exhausted {record} : (∀ lease, record.status = .claimed lease → lease.deadline ≤ now) →
      record.status.isTerminal = false → e.grips id = false →
      RecordStep floor now id e (some record) (some { record with status := .failed .exhausted })
  | claimed {record lease claims} : (∀ lease, record.status = .claimed lease → lease.deadline ≤ now) →
      record.status.isTerminal = false → floor < lease.token → e = .claimed claims →
      (claims.filter (·.id == id)).map (·.lease) = [lease] → record.attempt < record.request.maxAttempts.val →
      RecordStep floor now id e (some record)
        (some { record with claimCount := record.claimCount + 1, status := .claimed lease })
  | renewed {record current lease deadline} : record.status = .claimed current → now < current.deadline →
      current.sameFence lease = true → e = .renewed id lease (.ok { lease with deadline := deadline }) →
      RecordStep floor now id e (some record)
        (some { record with status := .claimed { lease with deadline := deadline } })
  | begun {record current lease} : record.status = .claimed current → now < current.deadline →
      current.sameFence lease = true → record.attempt < record.request.maxAttempts.val →
      e = .began id lease (.ok (.started (record.attempt + 1))) →
      RecordStep floor now id e (some record) (some { record with attempt := record.attempt + 1 })
  | settled {record current lease record'} : record.status = .claimed current → now < current.deadline →
      current.sameFence lease = true → e = .settled id lease (.ok ()) →
      (∀ l, record'.status ≠ .claimed l) → record'.attempt = record.attempt →
      record'.request.idempotencyKey = record.request.idempotencyKey →
      record'.request.maxAttempts = record.request.maxAttempts →
      RecordStep floor now id e (some record) (some record')

namespace InMemoryState

/-! ## Fenced operations -/

theorem fenced_cases (s : InMemoryState) (id : OutboxId) (lease : OutboxLease) (now : Nat) :
    (∃ e, s.fenced id lease now = .error e) ∨
      ∃ record, s.records.lookup id = some record ∧ leaseIsCurrent record.status lease now = true ∧
        s.fenced id lease now = .ok record := by
  unfold fenced
  cases s.records.lookup id with
  | none => exact Or.inl ⟨_, rfl⟩
  | some record =>
    dsimp only
    split
    · rename_i hc
      exact Or.inr ⟨record, rfl, hc, rfl⟩
    · exact Or.inl ⟨_, rfl⟩

/-- A fenced operation fails and changes nothing, or changes the one record. -/
theorem mutate_cases {α : Type} (s : InMemoryState) (id : OutboxId) (lease : OutboxLease) (now : Nat)
    (f : InMemoryRecord → InMemoryRecord × α) :
    (∃ e, s.mutate id lease now f = (s, .error e)) ∨
      ∃ record, s.records.lookup id = some record ∧ leaseIsCurrent record.status lease now = true ∧
        s.mutate id lease now f =
          ({ s with records := s.records.insert id (f record).1 }, .ok (f record).2) := by
  unfold mutate
  rcases s.fenced_cases id lease now with ⟨e, h⟩ | ⟨record, hr, hc, h⟩
  · rw [h]
    exact Or.inl ⟨e, rfl⟩
  · rw [h]
    exact Or.inr ⟨record, hr, hc, rfl⟩

/-! ## Claims -/

/-- Everything a claim of one record can do. -/
theorem claimOne_cases {s s' : InMemoryState} {worker : OutboxWorkerId} {now leaseFor : Nat} {id : OutboxId}
    {c : Option ClaimedOutboxRequest} (h : s.claimOne worker now leaseFor id = some (s', c)) :
    ∃ record, s.records.lookup id = some record ∧ s.nextLeaseToken + 1 < u64Size ∧
      ((record.request.maxAttempts.val ≤ record.attempt ∧ c = none ∧
          s' = { s with nextLeaseToken := s.nextLeaseToken + 1
                        records := s.records.insert id { record with status := .failed .exhausted } }) ∨
        (record.attempt < record.request.maxAttempts.val ∧ ∃ lease claimed,
          lease = ⟨worker, s.nextLeaseToken + 1, addOrStay now leaseFor⟩ ∧
          claimed = { record with claimCount := record.claimCount + 1, status := .claimed lease } ∧
          c = some (claimedRequest id claimed lease) ∧
          s' = { s with nextLeaseToken := s.nextLeaseToken + 1, records := s.records.insert id claimed })) := by
  unfold claimOne at h
  split at h
  · rename_i hfit
    dsimp only at h
    split at h
    · cases h
    · rename_i record hr
      refine ⟨record, hr, hfit, ?_⟩
      split at h
      · rename_i hmax
        cases h
        exact Or.inl ⟨hmax, rfl, rfl⟩
      · rename_i hmax
        split at h
        · cases h
          exact Or.inr ⟨Nat.lt_of_not_le hmax, _, _, rfl, rfl, rfl, rfl⟩
        · cases h
  · cases h

/-- What a call of `claim_due` does to one record once the leases that ran out
are taken back. -/
inductive ClaimStep (floor : Nat) (id : OutboxId) (ids : List OutboxId) (claims : List ClaimedOutboxRequest) :
    Option InMemoryRecord → Option InMemoryRecord → Prop
  | kept {o} : (∀ c ∈ claims, c.id ≠ id) → ClaimStep floor id ids claims o o
  | failed {record} : id ∈ ids → (∀ c ∈ claims, c.id ≠ id) → ClaimStep floor id ids claims (some record)
      (some { record with status := .failed .exhausted })
  | claimed {record c} : id ∈ ids → c ∈ claims → c.id = id → floor < c.lease.token →
      record.attempt < record.request.maxAttempts.val → ClaimStep floor id ids claims (some record)
        (some { record with claimCount := record.claimCount + 1, status := .claimed c.lease })

/-- The claims of a call: one a record, each under a token of its own. -/
structure Claims (s s' : InMemoryState) (ids : List OutboxId) (claims : List ClaimedOutboxRequest) : Prop where
  floor : s.nextLeaseToken ≤ s'.nextLeaseToken
  byKey : s'.byKey = s.byKey
  nextId : s'.nextId = s.nextId
  within : ∀ c ∈ claims, c.id ∈ ids
  once : (claims.map (·.id)).Nodup
  tokens : ∀ c ∈ claims, s.nextLeaseToken < c.lease.token ∧ c.lease.token ≤ s'.nextLeaseToken
  apart : (claims.map (·.lease.token)).Nodup
  records : ∀ id, ClaimStep s.nextLeaseToken id ids claims (s.records.lookup id) (s'.records.lookup id)

theorem claims_nil (s : InMemoryState) (ids : List OutboxId) : Claims s s ids [] where
  floor := Nat.le_refl _
  byKey := rfl
  nextId := rfl
  within _ hc := by cases hc
  once := List.nodup_nil
  tokens _ hc := by cases hc
  apart := List.nodup_nil
  records _ := .kept fun _ hc => by cases hc

/-- A record that is not among the due ones is left alone. -/
theorem Claims.other {s s' : InMemoryState} {ids : List OutboxId} {claims : List ClaimedOutboxRequest}
    (h : Claims s s' ids claims) {id : OutboxId} (hid : id ∉ ids) :
    s'.records.lookup id = s.records.lookup id := by
  have hr := h.records id
  generalize s.records.lookup id = o, s'.records.lookup id = o' at hr
  cases hr with
  | kept => rfl
  | failed hm => exact absurd hm hid
  | claimed hm => exact absurd hm hid

theorem claimAll_claims {worker : OutboxWorkerId} {now leaseFor : Nat} {s' : InMemoryState} :
    ∀ {limit : Nat} {ids : List OutboxId} {s : InMemoryState} {claims : List ClaimedOutboxRequest},
      ids.Nodup → claimAll worker now leaseFor limit ids s = some (s', claims) → Claims s s' ids claims
  | 0, ids, _, _, _, h => by
    cases ids <;> (cases h; exact claims_nil _ _)
  | _ + 1, [], _, _, _, h => by
    cases h
    exact claims_nil _ []
  | limit + 1, id :: ids, s, claims, hn, h => by
    rw [List.nodup_cons] at hn
    unfold claimAll at h
    split at h
    · cases h
    · -- a record with no attempts left fails, and takes a token
      rename_i s₁ h₁
      obtain ⟨record, hr, -, ⟨-, -, rfl⟩ | ⟨-, lease, claimed, -, -, hc, -⟩⟩ := claimOne_cases h₁
      · have ih := claimAll_claims hn.2 h
        refine ⟨Nat.le_of_succ_le ih.floor, ih.byKey, ih.nextId, fun c hc => List.mem_cons_of_mem _ (ih.within c hc),
          ih.once, fun c hc => ⟨Nat.lt_of_succ_lt (ih.tokens c hc).1, (ih.tokens c hc).2⟩, ih.apart, fun a => ?_⟩
        by_cases ha : a = id
        · subst ha
          rw [ih.other hn.1, Table.lookup_insert_if, if_pos rfl, hr]
          exact .failed List.mem_cons_self fun c hc hca => hn.1 (hca ▸ ih.within c hc)
        · have ha' := ih.records a
          rw [Table.lookup_insert_if, if_neg ha] at ha'
          generalize s.records.lookup a = o, s'.records.lookup a = o' at ha' ⊢
          cases ha' with
          | kept hk => exact .kept hk
          | failed hm hk => exact .failed (List.mem_cons_of_mem _ hm) hk
          | claimed hm hc hca ht hlt => exact .claimed (List.mem_cons_of_mem _ hm) hc hca (Nat.lt_of_succ_lt ht) hlt
      · cases hc
    · rename_i s₁ claim h₁
      obtain ⟨record, hr, -, ⟨-, hc, -⟩ | ⟨hmax, lease, claimed, hlease, hclaimed, hc, rfl⟩⟩ := claimOne_cases h₁
      · cases hc
      · rw [Option.some.injEq] at hc
        rw [Option.map_eq_some_iff] at h
        obtain ⟨⟨s₂, rest⟩, h₂, h⟩ := h
        cases h
        have ih := claimAll_claims hn.2 h₂
        have htoken : claim.lease.token = s.nextLeaseToken + 1 := by rw [hc, hlease]; rfl
        have hcid : claim.id = id := by rw [hc]; rfl
        have hnot : ∀ c ∈ rest, c.id ≠ id := fun c hc hca => hn.1 (hca ▸ ih.within c hc)
        have hnew : claim.lease.token ∉ rest.map (·.lease.token) := by
          intro hm
          obtain ⟨c, hcm, hct⟩ := List.mem_map.1 hm
          have hlt : s.nextLeaseToken + 1 < c.lease.token := (ih.tokens c hcm).1
          omega
        refine ⟨Nat.le_of_succ_le ih.floor, ih.byKey, ih.nextId, fun c hc => ?_, ?_, fun c hc => ?_, ?_, fun a => ?_⟩
        · rcases List.mem_cons.1 hc with rfl | hc
          · rw [hcid]
            exact List.mem_cons_self
          · exact List.mem_cons_of_mem _ (ih.within c hc)
        · rw [List.map_cons, List.nodup_cons]
          refine ⟨fun hm => ?_, ih.once⟩
          obtain ⟨c, hcm, hca⟩ := List.mem_map.1 hm
          exact hnot c hcm (hca.trans hcid)
        · rcases List.mem_cons.1 hc with rfl | hc
          · have hle : s.nextLeaseToken + 1 ≤ s₂.nextLeaseToken := ih.floor
            exact ⟨by omega, htoken ▸ hle⟩
          · exact ⟨Nat.lt_of_succ_lt (ih.tokens c hc).1, (ih.tokens c hc).2⟩
        · rw [List.map_cons, List.nodup_cons]
          exact ⟨hnew, ih.apart⟩
        · by_cases ha : a = id
          · subst ha
            rw [ih.other hn.1, Table.lookup_insert_if, if_pos rfl, hr, hclaimed]
            have hl : lease = claim.lease := by rw [hc]; rfl
            rw [hl]
            exact .claimed List.mem_cons_self List.mem_cons_self hcid (by omega) hmax
          · have ha' := ih.records a
            rw [Table.lookup_insert_if, if_neg ha] at ha'
            generalize s.records.lookup a = o, s₂.records.lookup a = o' at ha' ⊢
            have hne : claim.id ≠ a := fun he => ha (he.symm.trans hcid)
            have hall : (∀ c ∈ rest, c.id ≠ a) → ∀ c ∈ claim :: rest, c.id ≠ a := by
              intro hk c hcm
              rcases List.mem_cons.1 hcm with rfl | hcm
              · exact hne
              · exact hk c hcm
            cases ha' with
            | kept hk => exact .kept (hall hk)
            | failed hm hk => exact .failed (List.mem_cons_of_mem _ hm) (hall hk)
            | claimed hm hc hca ht hlt =>
              exact .claimed (List.mem_cons_of_mem _ hm) (List.mem_cons_of_mem _ hc) hca (Nat.lt_of_succ_lt ht) hlt

theorem mem_dueIds {s : InMemoryState} {now : Nat} {id : OutboxId} (h : id ∈ s.dueIds now) :
    ∃ record, s.records.lookup id = some record ∧ record.status = .pending := by
  simp only [dueIds, List.mem_map, List.mem_insertionSort, List.mem_filterMap] at h
  obtain ⟨p, ⟨⟨id', record⟩, hm, hp⟩, rfl⟩ := h
  split at hp
  · rename_i hdue
    cases hp
    exact ⟨record, List.mem_dlookup_iff s.records.nodupKeys |>.2 hm, hdue.1⟩
  · cases hp

theorem dueIds_nodup (s : InMemoryState) (now : Nat) : (s.dueIds now).Nodup := by
  unfold dueIds
  have hperm := fun (l : List (Nat × OutboxId)) =>
    (List.perm_insertionSort (fun a b : Nat × OutboxId => a.1 < b.1 ∨ a.1 = b.1 ∧ a.2 ≤ b.2) l).map (·.2)
  refine (hperm _).nodup_iff.2 ?_
  have hsub : List.Sublist ((s.records.entries.filterMap fun e =>
      if e.2.status = .pending ∧ e.2.request.availableAt ≤ now then some (e.2.request.availableAt, e.1)
      else none).map (·.2)) (s.records.entries.map (·.1)) := by
    generalize s.records.entries = l
    induction l with
    | nil => exact .slnil
    | cons e l ih =>
      rw [List.filterMap_cons]
      split
      · exact ih.cons _
      · rename_i hp
        split at hp
        · cases hp
          exact ih.cons_cons _
        · cases hp
  exact List.Nodup.sublist hsub s.records.nodupKeys

theorem expire_cases (record : InMemoryRecord) (now : Nat) :
    record.expire now = record ∧ (∀ lease, record.status = .claimed lease → now < lease.deadline) ∨
      ∃ lease, record.status = .claimed lease ∧ lease.deadline ≤ now ∧
        record.expire now = { record with status := .pending } := by
  unfold InMemoryRecord.expire
  split
  · rename_i lease hs
    split
    · rename_i hle
      exact Or.inr ⟨lease, hs, hle, rfl⟩
    · rename_i hlt
      refine Or.inl ⟨rfl, fun l hl => ?_⟩
      rw [hs] at hl
      cases hl
      exact Nat.lt_of_not_le hlt
  · rename_i hne
    exact Or.inl ⟨rfl, fun l hl => absurd hl (hne l)⟩

theorem filter_eq_of_once {claims : List ClaimedOutboxRequest} {c : ClaimedOutboxRequest}
    (hn : (claims.map (·.id)).Nodup) (hc : c ∈ claims) :
    claims.filter (·.id == c.id) = [c] := by
  induction claims with
  | nil => cases hc
  | cons d claims ih =>
    rw [List.map_cons, List.nodup_cons] at hn
    rcases List.mem_cons.1 hc with rfl | hc
    · have hnone : claims.filter (·.id == c.id) = [] := by
        refine List.filter_eq_nil_iff.2 fun d hd => ?_
        intro he
        exact hn.1 (List.mem_map.2 ⟨d, hd, by simpa using he⟩)
      simp [hnone]
    · have hne : d.id ≠ c.id := fun he => hn.1 (he ▸ List.mem_map_of_mem hc)
      rw [List.filter_cons_of_neg (by simpa using hne)]
      exact ih hn.2 hc

/-- What a call of `claim_due` does to one record. -/
theorem claimDue_records {s s' : InMemoryState} {worker : OutboxWorkerId} {readAt leaseFor now : Nat}
    {limit : NonZeroUsize} {claims : List ClaimedOutboxRequest} (hn : readAt ≤ now)
    (h : s.claimDue worker readAt leaseFor limit = some (s', claims)) (id : OutboxId) :
    RecordStep s.nextLeaseToken now id (.claimed claims) (s.records.lookup id) (s'.records.lookup id) := by
  unfold claimDue at h
  have hc := claimAll_claims (dueIds_nodup _ _) h
  have hr := hc.records id
  have hdue : id ∈ dueIds { s with records := s.records.mapValues (·.expire readAt) } readAt →
      ∀ record, s.records.lookup id = some record → (record.expire readAt).status = .pending := by
    intro hm record hl
    obtain ⟨r, hlr, hp⟩ := mem_dueIds hm
    rw [Table.lookup_mapValues, hl, Option.map_some, Option.some.injEq] at hlr
    rw [hlr]
    exact hp
  rw [Table.lookup_mapValues] at hr
  have hgrip : (∀ c ∈ claims, c.id ≠ id) → (StoreEvent.claimed claims).grips id = false := by
    intro hk
    simpa [StoreEvent.grips] using hk
  cases hl : s.records.lookup id with
  | none =>
    rw [hl] at hr
    generalize ho' : s'.records.lookup id = o' at hr
    cases hr with
    | kept hk => exact .same (hgrip hk)
  | some record =>
    rw [hl, Option.map_some] at hr
    have hfree : id ∈ dueIds { s with records := s.records.mapValues (·.expire readAt) } readAt →
        (∀ lease, record.status = .claimed lease → lease.deadline ≤ now) ∧ record.status.isTerminal = false := by
      intro hm
      have hp := hdue hm record hl
      rcases expire_cases record readAt with ⟨he, -⟩ | ⟨lease, hs, hle, -⟩
      · rw [he] at hp
        refine ⟨fun lease hs => ?_, ?_⟩
        · rw [hp] at hs
          cases hs
        · rw [hp]
          rfl
      · refine ⟨fun l hs' => ?_, ?_⟩
        · rw [hs] at hs'
          cases hs'
          exact Nat.le_trans hle hn
        · rw [hs]
          rfl
    have hsame : { record.expire readAt with status := .failed .exhausted } =
        { record with status := .failed .exhausted } := by
      rcases expire_cases record readAt with ⟨he, -⟩ | ⟨lease, -, -, he⟩ <;> rw [he]
    generalize ho' : s'.records.lookup id = o' at hr
    cases hr with
    | kept hk =>
      rcases expire_cases record readAt with ⟨he, -⟩ | ⟨lease, hs, hle, he⟩
      · rw [he]
        exact .same (hgrip hk)
      · rw [he]
        exact .reverted hs (Nat.le_trans hle hn) (hgrip hk)
    | failed hm hk =>
      rw [hsame]
      exact .exhausted (hfree hm).1 (hfree hm).2 (hgrip hk)
    | @claimed _ c hm hcm hcid ht hlt =>
      have hbase : { record.expire readAt with
          claimCount := (record.expire readAt).claimCount + 1, status := .claimed c.lease } =
          { record with claimCount := record.claimCount + 1, status := .claimed c.lease } := by
        rcases expire_cases record readAt with ⟨he, -⟩ | ⟨lease, -, -, he⟩ <;> rw [he]
      have hattempt : record.attempt < record.request.maxAttempts.val := by
        rcases expire_cases record readAt with ⟨he, -⟩ | ⟨lease, -, -, he⟩ <;> rw [he] at hlt <;> exact hlt
      have hone : (claims.filter (·.id == id)).map (·.lease) = [c.lease] := by
        subst hcid
        rw [filter_eq_of_once hc.once hcm]
        rfl
      rw [hbase]
      exact .claimed (hfree hm).1 (hfree hm).2 ht rfl hone hattempt

/-! ## Every operation -/

/-- The keys and the records are in one-to-one correspondence, under ids given
out before. -/
structure Indexed (s : InMemoryState) : Prop where
  known : ∀ id record, s.records.lookup id = some record → id < s.nextId
  index : ∀ key id, s.byKey.lookup key = some id ↔
    ∃ record, s.records.lookup id = some record ∧ record.request.idempotencyKey = key

/-- The tokens that an event gives out. -/
def claimTokens : StoreEvent → List Nat
  | .claimed claims => claims.map (·.lease.token)
  | _ => []

/-- What an operation at `now` does. -/
structure Acts (s : InMemoryState) (now : Nat) (e : StoreEvent) (s' : InMemoryState) : Prop where
  records : ∀ id, RecordStep s.nextLeaseToken now id e (s.records.lookup id) (s'.records.lookup id)
  indexed : s'.Indexed
  floor : s.nextLeaseToken ≤ s'.nextLeaseToken
  tokens : ∀ token ∈ claimTokens e, s.nextLeaseToken < token ∧ token ≤ s'.nextLeaseToken
  apart : (claimTokens e).Nodup
  accepted : ∀ id lease, e.accepted = some (id, lease) →
    ∃ record, s.records.lookup id = some record ∧ leaseIsCurrent record.status lease now = true

/-- Records that keep their keys stay in the index. -/
theorem Indexed.of_keys {s s' : InMemoryState} (h : s.Indexed) (hb : s'.byKey = s.byKey) (hn : s'.nextId = s.nextId)
    (hk : ∀ id, (s'.records.lookup id).map (·.request.idempotencyKey) =
      (s.records.lookup id).map (·.request.idempotencyKey)) : s'.Indexed := by
  have hiff : ∀ id key, (∃ record, s'.records.lookup id = some record ∧ record.request.idempotencyKey = key) ↔
      ∃ record, s.records.lookup id = some record ∧ record.request.idempotencyKey = key := by
    intro id key
    rw [← Option.map_eq_some_iff, ← Option.map_eq_some_iff, hk id]
  refine ⟨fun id record hr => ?_, fun key id => ?_⟩
  · obtain ⟨record', hr', -⟩ := (hiff id _).1 ⟨record, hr, rfl⟩
    rw [hn]
    exact h.known id record' hr'
  · rw [hb, hiff]
    exact h.index key id

/-- An operation that changes the records only by steps that keep the keys. -/
theorem Acts.of_records {s s' : InMemoryState} {now : Nat} {e : StoreEvent} (h : s.Indexed)
    (hb : s'.byKey = s.byKey) (hn : s'.nextId = s.nextId) (hf : s.nextLeaseToken ≤ s'.nextLeaseToken)
    (hr : ∀ id, RecordStep s.nextLeaseToken now id e (s.records.lookup id) (s'.records.lookup id))
    (hi : ∀ request id, e ≠ .enqueued request (.ok (.inserted id)))
    (ht : ∀ token ∈ claimTokens e, s.nextLeaseToken < token ∧ token ≤ s'.nextLeaseToken)
    (hd : (claimTokens e).Nodup)
    (ha : ∀ id lease, e.accepted = some (id, lease) →
      ∃ record, s.records.lookup id = some record ∧ leaseIsCurrent record.status lease now = true) :
    Acts s now e s' := by
  refine ⟨hr, h.of_keys hb hn fun id => ?_, hf, ht, hd, ha⟩
  have hid := hr id
  generalize s.records.lookup id = o, s'.records.lookup id = o' at hid
  cases hid with
  | same | reverted | exhausted | claimed | renewed | begun => rfl
  | inserted he => exact absurd he (hi _ _)
  | settled _ _ _ _ _ _ hkey => simp only [Option.map_some, hkey]

/-- Fenced operations. -/
theorem mutate_acts {α : Type} {s : InMemoryState} (h : s.Indexed) {id : OutboxId} {lease : OutboxLease}
    {now : Nat} {f : InMemoryRecord → InMemoryRecord × α} {g : Except InMemoryOutboxError α → StoreEvent}
    (herr : ∀ e a, (g (.error e)).grips a = false ∧ (g (.error e)).accepted = none)
    (hok : ∀ v, (g (.ok v)).accepted = some (id, lease) ∧ ∀ a, a ≠ id → (g (.ok v)).grips a = false)
    (hclaim : ∀ r, claimTokens (g r) = [] ∧ ∀ request a, g r ≠ .enqueued request (.ok (.inserted a)))
    (hstep : ∀ record, s.records.lookup id = some record → leaseIsCurrent record.status lease now = true →
      RecordStep s.nextLeaseToken now id (g (.ok (f record).2)) (some record) (some (f record).1)) :
    Acts s now (g (s.mutate id lease now f).2) (s.mutate id lease now f).1 := by
  rcases s.mutate_cases id lease now f with ⟨e, he⟩ | ⟨record, hr, hc, he⟩
  · rw [he]
    refine .of_records h rfl rfl (Nat.le_refl _) (fun a => .same (herr e a).1) (hclaim _).2 ?_ ?_ ?_
    · rw [(hclaim _).1]
      simp
    · rw [(hclaim _).1]
      exact List.nodup_nil
    · intro a l hacc
      rw [(herr e a).2] at hacc
      cases hacc
  · rw [he]
    refine .of_records h rfl rfl (Nat.le_refl _) (fun a => ?_) (hclaim _).2 ?_ ?_ ?_
    · rw [Table.lookup_insert_if]
      split
      · rename_i ha
        subst ha
        rw [hr]
        exact hstep record hr hc
      · rename_i ha
        exact .same ((hok _).2 a ha)
    · rw [(hclaim _).1]
      simp
    · rw [(hclaim _).1]
      exact List.nodup_nil
    · intro a l hacc
      rw [(hok _).1] at hacc
      cases hacc
      exact ⟨record, hr, hc⟩

/-- The mutations that end a lease. -/
theorem settle_acts {s : InMemoryState} (h : s.Indexed) {id : OutboxId} {lease : OutboxLease} {now : Nat}
    {f : InMemoryRecord → InMemoryRecord}
    (hf : ∀ record, (∀ l, (f record).status ≠ .claimed l) ∧ (f record).attempt = record.attempt ∧
      (f record).request.idempotencyKey = record.request.idempotencyKey ∧
      (f record).request.maxAttempts = record.request.maxAttempts) :
    Acts s now (.settled id lease (s.mutate id lease now fun record => (f record, ())).2)
      (s.mutate id lease now fun record => (f record, ())).1 := by
  refine mutate_acts (g := .settled id lease) h (fun e a => ⟨rfl, rfl⟩) (fun _ => ⟨rfl, fun a ha => ?_⟩)
    (fun _ => ⟨rfl, fun _ _ he => by cases he⟩) fun record hr hc => ?_
  · simpa [StoreEvent.grips] using ha.symm
  · obtain ⟨current, hs, hfence, hlt⟩ := leaseIsCurrent_iff.1 hc
    obtain ⟨h₁, h₂, h₃, h₄⟩ := hf record
    exact .settled hs hlt hfence rfl h₁ h₂ h₃ h₄

theorem enqueue_acts {s s' : InMemoryState} (h : s.Indexed) {request : NewOutboxRequest} {now : Nat}
    {r : Except InMemoryOutboxError OutboxEnqueueResult} (he : s.enqueue request = some (s', r)) :
    Acts s now (.enqueued request r) s' := by
  have hsame (r) (hr : ∀ id, r ≠ Except.ok (.inserted id)) : Acts s now (.enqueued request r) s :=
    .of_records h rfl rfl (Nat.le_refl _) (fun _ => .same rfl) (fun q id hq => by cases hq; exact hr id rfl)
      (by simp [claimTokens]) List.nodup_nil fun _ _ ha => by cases ha
  unfold enqueue at he
  split at he
  · split at he
    · cases he
    · split at he
      · cases he
        exact hsame _ fun _ hq => by cases hq
      · cases he
        exact hsame _ fun _ hq => by cases hq
  · rename_i hkey
    split at he
    · rename_i hfit
      cases he
      -- the new id is not in use yet
      have hfree : s.records.lookup s.nextId = none := by
        cases hr : s.records.lookup s.nextId with
        | none => rfl
        | some record => exact absurd (h.known _ _ hr) (Nat.lt_irrefl _)
      refine ⟨fun id => ?_, ⟨fun id record hr => ?_, fun key id => ?_⟩, Nat.le_refl _, by simp [claimTokens],
        List.nodup_nil, fun _ _ ha => by cases ha⟩
      · rw [Table.lookup_insert_if]
        split
        · rename_i hid
          subst hid
          rw [hfree]
          exact .inserted rfl
        · exact .same rfl
      · rw [Table.lookup_insert_if] at hr
        split at hr
        · rename_i hid
          rw [hid]
          exact Nat.lt_succ_self _
        · exact Nat.lt_succ_of_lt (h.known id record hr)
      · simp only [Table.lookup_insert_if]
        by_cases hk : key = request.idempotencyKey
        · subst hk
          rw [if_pos rfl]
          constructor
          · intro hid
            cases hid
            exact ⟨_, if_pos rfl, rfl⟩
          · rintro ⟨record, hr, hrk⟩
            split at hr
            · rename_i hid
              rw [hid]
            · have hused := (h.index request.idempotencyKey id).2 ⟨record, hr, hrk⟩
              rw [hkey] at hused
              cases hused
        · rw [if_neg hk, h.index]
          constructor
          · rintro ⟨record, hr, hrk⟩
            refine ⟨record, ?_, hrk⟩
            rw [if_neg (Nat.ne_of_lt (h.known id record hr))]
            exact hr
          · rintro ⟨record, hr, hrk⟩
            split at hr
            · cases hr
              exact absurd hrk.symm hk
            · exact ⟨record, hr, hrk⟩
    · cases he

theorem claimDue_acts {s s' : InMemoryState} (h : s.Indexed) {worker : OutboxWorkerId} {readAt leaseFor now : Nat}
    {limit : NonZeroUsize} {claims : List ClaimedOutboxRequest} (hn : readAt ≤ now)
    (he : s.claimDue worker readAt leaseFor limit = some (s', claims)) : Acts s now (.claimed claims) s' := by
  have hr := claimDue_records hn he
  unfold claimDue at he
  have hc := claimAll_claims (dueIds_nodup _ _) he
  refine .of_records h hc.byKey hc.nextId hc.floor hr (fun _ _ hq => by cases hq) (fun token ht => ?_) hc.apart
    fun _ _ ha => by cases ha
  obtain ⟨c, hcm, rfl⟩ := List.mem_map.1 ht
  exact hc.tokens c hcm

theorem act_acts {s s' : InMemoryState} {a : StoreAction} {e : StoreEvent} (h : s.Indexed)
    (ha : s.act a = some (s', e)) : Acts s a.now e s' := by
  cases a with
  | enqueue request now =>
    obtain ⟨⟨s₁, r⟩, he, ha⟩ := Option.map_eq_some_iff.1 ha
    cases ha
    exact enqueue_acts h he
  | claimDue worker readAt leaseFor limit now =>
    simp only [act] at ha
    split at ha
    · rename_i hn
      obtain ⟨⟨s₁, claims⟩, he, ha⟩ := Option.map_eq_some_iff.1 ha
      cases ha
      exact claimDue_acts h hn he
    · cases ha
  | renewLease id lease deadline now =>
    cases ha
    refine mutate_acts (g := .renewed id lease) h (fun e a => ⟨rfl, rfl⟩) (fun _ => ⟨rfl, fun a hne => ?_⟩)
      (fun _ => ⟨rfl, fun _ _ he => by cases he⟩) fun record hr hc => ?_
    · simpa [StoreEvent.grips] using hne.symm
    · obtain ⟨current, hs, hfence, hlt⟩ := leaseIsCurrent_iff.1 hc
      exact .renewed hs hlt hfence rfl
  | beginAttempt id lease now =>
    cases ha
    refine mutate_acts (g := .began id lease) h (fun e a => ⟨rfl, rfl⟩) (fun _ => ⟨rfl, fun a _ => rfl⟩)
      (fun _ => ⟨rfl, fun _ _ he => by cases he⟩) fun record hr hc => ?_
    obtain ⟨current, hs, hfence, hlt⟩ := leaseIsCurrent_iff.1 hc
    by_cases hmax : record.request.maxAttempts.val ≤ record.attempt
    · rw [if_pos hmax]
      exact .same rfl
    · rw [if_neg hmax]
      exact .begun hs hlt hfence (Nat.lt_of_not_le hmax) rfl
  | complete id lease now =>
    cases ha
    unfold complete
    split
    · exact .of_records h rfl rfl (Nat.le_refl _) (fun _ => .same rfl) (fun _ _ hq => by cases hq)
        (by simp [claimTokens]) List.nodup_nil fun _ _ ha => by cases ha
    · exact settle_acts h fun record => ⟨(fun _ he => by cases he), rfl, rfl, rfl⟩
  | reschedule id lease retry now =>
    cases ha
    exact settle_acts (f := fun record => { record with
      request := { record.request with availableAt := retry.availableAt }
      lastFailure := some retry.failure
      status := .pending }) h fun record => ⟨(fun _ he => by cases he), rfl, rfl, rfl⟩
  | fail id lease failure now =>
    cases ha
    exact settle_acts (f := fun record => { record with lastFailure := some failure, status := .failed failure }) h
      fun record => ⟨(fun _ he => by cases he), rfl, rfl, rfl⟩
  | armFailure now =>
    cases ha
    exact .of_records h rfl rfl (Nat.le_refl _) (fun _ => .same rfl) (fun _ _ hq => by cases hq)
      (by simp [claimTokens]) List.nodup_nil fun _ _ ha => by cases ha

end InMemoryState

/-! ## The leases that are out -/

/-- The leases on a record that were given out and not given back, with the
expiry they were last extended to; the newest first. -/
def outstanding (id : OutboxId) : List StoreEvent → List OutboxLease
  | [] => []
  | .claimed claims :: τ => (claims.filter (·.id == id)).map (·.lease) ++ outstanding id τ
  | .renewed id' lease (.ok renewed) :: τ =>
    if id' = id then (outstanding id τ).map fun l => if l.sameFence lease then renewed else l
    else outstanding id τ
  | .settled id' lease (.ok _) :: τ =>
    if id' = id then (outstanding id τ).filter fun l => !l.sameFence lease else outstanding id τ
  | _ :: τ => outstanding id τ

/-- The tokens given out in a run. -/
def issuedTokens : List StoreEvent → List Nat
  | [] => []
  | e :: τ => InMemoryState.claimTokens e ++ issuedTokens τ

theorem outstanding_same {id : OutboxId} {e : StoreEvent} (h : e.grips id = false) (τ : List StoreEvent) :
    outstanding id (e :: τ) = outstanding id τ := by
  cases e with
  | enqueued | began | armed => rfl
  | claimed claims =>
    have hnone : claims.filter (·.id == id) = [] := by
      rw [List.filter_eq_nil_iff]
      simpa [StoreEvent.grips] using h
    simp [outstanding, hnone]
  | renewed id' lease r =>
    cases r with
    | error => rfl
    | ok v => simp_all [outstanding, StoreEvent.grips]
  | settled id' lease r =>
    cases r with
    | error => rfl
    | ok v => simp_all [outstanding, StoreEvent.grips]

/-- The tokens of the leases that are out are tokens given out, each once. -/
theorem outstanding_tokens {id : OutboxId} {e : StoreEvent} {τ : List StoreEvent}
    (ih : ((outstanding id τ).map (·.token)).Sublist (issuedTokens τ))
    (h : ∀ id' lease renewed, e = .renewed id' lease (.ok renewed) → renewed.token = lease.token) :
    ((outstanding id (e :: τ)).map (·.token)).Sublist (issuedTokens (e :: τ)) := by
  have hkeep : ((outstanding id τ).map (·.token)).Sublist (issuedTokens (e :: τ)) :=
    ih.trans (List.sublist_append_right _ _)
  cases e with
  | enqueued | began | armed => exact hkeep
  | claimed claims =>
    simp only [outstanding, issuedTokens, InMemoryState.claimTokens, List.map_append, List.map_map]
    exact (List.filter_sublist.map _).append ih
  | renewed id' lease r =>
    cases r with
    | error => exact hkeep
    | ok renewed =>
      simp only [outstanding]
      split
      · have hmap : ((outstanding id τ).map fun l => if l.sameFence lease then renewed else l).map (·.token) =
            (outstanding id τ).map (·.token) := by
          rw [List.map_map]
          refine List.map_congr_left fun l _ => ?_
          simp only [Function.comp_apply]
          split
          · rename_i hf
            rw [h id' lease renewed rfl, (OutboxLease.sameFence_iff.1 hf).2]
          · rfl
        rw [hmap]
        exact hkeep
      · exact hkeep
  | settled id' lease r =>
    cases r with
    | error => exact hkeep
    | ok v =>
      simp only [outstanding]
      split
      · exact (List.filter_sublist.map _).trans hkeep
      · exact hkeep

open InMemoryState in
/-- What holds of the leases and the records after a run. -/
structure LeaseBook (τ : List StoreEvent) (x : StoreSys) : Prop where
  indexed : x.store.Indexed
  issued : (issuedTokens τ).Nodup
  below : ∀ token ∈ issuedTokens τ, token ≤ x.store.nextLeaseToken
  tokens : ∀ id, ((outstanding id τ).map (·.token)).Sublist (issuedTokens τ)
  stale : ∀ id l, l ∈ outstanding id τ → l.deadline ≤ x.clock ∨
    ∃ record, x.store.records.lookup id = some record ∧ record.status = .claimed l
  held : ∀ id record l, x.store.records.lookup id = some record → record.status = .claimed l →
    l ∈ outstanding id τ
  attempts : ∀ id record, x.store.records.lookup id = some record →
    record.attempt ≤ record.request.maxAttempts.val

namespace LeaseBook

variable {τ : List StoreEvent} {x x' : StoreSys} {e : StoreEvent}

/-- Leases under which a record is not claimed have run out. -/
theorem ran_out (h : LeaseBook τ x) (id : OutboxId) {now : Nat} (hn : x.clock ≤ now)
    (hf : ∀ record l, x.store.records.lookup id = some record → record.status = .claimed l → l.deadline ≤ now) :
    ∀ l ∈ outstanding id τ, l.deadline ≤ now := by
  intro l hl
  rcases h.stale id l hl with hle | ⟨record, hr, hs⟩
  · exact Nat.le_trans hle hn
  · exact hf record l hr hs

/-- The leases on one record after a step. -/
theorem record_step (h : LeaseBook τ x) {now : Nat} (hn : x.clock ≤ now) {id : OutboxId} {o' : Option InMemoryRecord}
    (hr : RecordStep x.store.nextLeaseToken now id e (x.store.records.lookup id) o') :
    (∀ l ∈ outstanding id (e :: τ), l.deadline ≤ now ∨ ∃ record, o' = some record ∧ record.status = .claimed l) ∧
      (∀ record l, o' = some record → record.status = .claimed l → l ∈ outstanding id (e :: τ)) ∧
      ∀ record, o' = some record → record.attempt ≤ record.request.maxAttempts.val := by
  have hstale := h.stale id
  have hheld := h.held id
  have hattempts := h.attempts id
  have hgone := h.ran_out id hn
  generalize x.store.records.lookup id = o at hr hstale hheld hattempts hgone
  cases hr with
  | same he =>
    rw [outstanding_same he]
    refine ⟨fun l hl => ?_, hheld, hattempts⟩
    exact (hstale l hl).imp_left fun hle => Nat.le_trans hle hn
  | inserted he =>
    subst he
    refine ⟨fun l hl => Or.inl (hgone (fun _ _ hc => by cases hc) l hl), fun record l hc hs => ?_, fun record hc => ?_⟩
    · cases hc
      cases hs
    · cases hc
      exact Nat.zero_le _
  | @reverted record lease hs hle he =>
    rw [outstanding_same he]
    refine ⟨fun l hl => Or.inl (hgone (fun r l hc hs' => ?_) l hl), fun r l hc hs' => ?_, fun r hc => ?_⟩
    · cases hc
      rw [hs] at hs'
      cases hs'
      exact hle
    · cases hc
      cases hs'
    · cases hc
      exact hattempts record rfl
  | @exhausted record hex ht he =>
    rw [outstanding_same he]
    refine ⟨fun l hl => Or.inl (hgone (fun r l hc hs' => ?_) l hl), fun r l hc hs' => ?_, fun r hc => ?_⟩
    · cases hc
      exact hex l hs'
    · cases hc
      cases hs'
    · cases hc
      exact hattempts record rfl
  | @claimed record lease claims hex ht hfloor he hone hlt =>
    subst he
    have hout : outstanding id (.claimed claims :: τ) = lease :: outstanding id τ := by
      simp only [outstanding, hone, List.cons_append, List.nil_append]
    rw [hout]
    refine ⟨fun l hl => ?_, fun r l hc hs' => ?_, fun r hc => ?_⟩
    · rcases List.mem_cons.1 hl with rfl | hl
      · exact Or.inr ⟨_, rfl, rfl⟩
      · refine Or.inl (hgone (fun r l hc hs' => ?_) l hl)
        cases hc
        exact hex l hs'
    · cases hc
      cases hs'
      exact List.mem_cons_self
    · cases hc
      exact Nat.le_of_lt hlt
  | @renewed record current lease deadline hs hlt hf he =>
    subst he
    have hcur := hheld record current rfl hs
    have hout : outstanding id (.renewed id lease (.ok { lease with deadline := deadline }) :: τ) =
        (outstanding id τ).map fun l => if l.sameFence lease then { lease with deadline := deadline } else l := by
      simp only [outstanding, if_true]
    rw [hout]
    refine ⟨fun l hl => ?_, fun r l hc hs' => ?_, fun r hc => ?_⟩
    · obtain ⟨l₀, hl₀, hl⟩ := List.mem_map.1 hl
      split at hl
      · subst hl
        exact Or.inr ⟨_, rfl, rfl⟩
      · rename_i hne
        subst hl
        -- a lease with another fence is not the current one
        rcases hstale l₀ hl₀ with hle | ⟨r, hc, hs'⟩
        · exact Or.inl (Nat.le_trans hle hn)
        · cases hc
          rw [hs] at hs'
          cases hs'
          exact absurd hf hne
    · cases hc
      cases hs'
      refine List.mem_map.2 ⟨current, hcur, ?_⟩
      rw [if_pos hf]
    · cases hc
      exact hattempts record rfl
  | @begun record current lease hs hlt hf hmax he =>
    subst he
    refine ⟨fun l hl => ?_, fun r l hc hs' => ?_, fun r hc => ?_⟩
    · rcases hstale l hl with hle | ⟨r, hc, hs'⟩
      · exact Or.inl (Nat.le_trans hle hn)
      · cases hc
        exact Or.inr ⟨_, rfl, hs'⟩
    · cases hc
      exact hheld record l rfl hs'
    · cases hc
      exact hmax
  | @settled record current lease record' hs hlt hf he hfree hatt hkey hmax =>
    subst he
    have hout : outstanding id (.settled id lease (.ok ()) :: τ) =
        (outstanding id τ).filter fun l => !l.sameFence lease := by
      simp only [outstanding, if_true]
    rw [hout]
    refine ⟨fun l hl => ?_, fun r l hc hs' => ?_, fun r hc => ?_⟩
    · rw [List.mem_filter] at hl
      rcases hstale l hl.1 with hle | ⟨r, hc, hs'⟩
      · exact Or.inl (Nat.le_trans hle hn)
      · cases hc
        rw [hs] at hs'
        cases hs'
        rw [hf] at hl
        exact absurd hl.2 (by simp)
    · cases hc
      exact absurd hs' (hfree l)
    · cases hc
      rw [hatt, hmax]
      exact hattempts record rfl

theorem step (h : LeaseBook τ x) {a : StoreAction} (hs : outboxStore.step x a = some (x', e)) :
    LeaseBook (e :: τ) x' := by
  simp only [outboxStore] at hs
  split at hs
  · cases hs
  · rename_i hclock
    obtain ⟨⟨s', e'⟩, ha, hs⟩ := Option.map_eq_some_iff.1 hs
    cases hs
    have hn : x.clock ≤ a.now := Nat.le_of_not_lt hclock
    have hacts := InMemoryState.act_acts h.indexed ha
    have hone := fun id => h.record_step hn (hacts.records id)
    refine ⟨hacts.indexed, ?_, fun token ht => ?_, fun id => outstanding_tokens (h.tokens id) fun id' lease renewed he => ?_,
      fun id => (hone id).1, fun id => (hone id).2.1, fun id => (hone id).2.2⟩
    · rw [issuedTokens, List.nodup_append]
      refine ⟨hacts.apart, h.issued, fun t ht t' ht' heq => ?_⟩
      have hlt := (hacts.tokens t ht).1
      have hle := h.below t' ht'
      omega
    · rcases List.mem_append.1 ht with ht | ht
      · exact (hacts.tokens token ht).2
      · exact Nat.le_trans (h.below token ht) hacts.floor
    · subst he
      have hr := hacts.records id'
      generalize x.store.records.lookup id' = o, s'.records.lookup id' = o' at hr
      cases hr with
      | same he | reverted _ _ he | exhausted _ _ he => simp [StoreEvent.grips] at he
      | inserted he | claimed _ _ _ he | begun _ _ _ _ he | settled _ _ _ he => cases he
      | renewed _ _ _ he =>
        cases he
        rfl

theorem init (h : outboxStore.init x) : LeaseBook [] x := by
  obtain ⟨store, clock⟩ := x
  cases h
  refine ⟨⟨fun id record hr => (by cases hr), fun key id => ⟨fun hk => (by cases hk), ?_⟩⟩, List.nodup_nil,
    fun _ ht => (by cases ht), fun _ => .slnil, fun _ _ hl => (by cases hl), fun _ _ _ hr => (by cases hr),
    fun _ _ hr => (by cases hr)⟩
  rintro ⟨record, hr, -⟩
  cases hr

end LeaseBook

theorem leaseBook_run {τ : List StoreEvent} {x : StoreSys} (hr : StoreRun τ x) : LeaseBook τ x :=
  Machine.Run.induct (I := LeaseBook) (fun _ => LeaseBook.init) (fun _ _ _ _ _ _ h _ hs => h.step hs) hr

/-! ## The guarantees -/

/-- What holds of the leases and the records after a run. -/
structure Fenced (τ : List StoreEvent) (x : StoreSys) : Prop where
  /-- Of the leases on a record one at most has not run out. -/
  oneLease : ∀ id now, x.clock ≤ now → ((outstanding id τ).filter fun l => decide (now < l.deadline)).length ≤ 1
  /-- No token is given out twice. -/
  tokens : (issuedTokens τ).Nodup
  attempts : ∀ id record, x.store.records.lookup id = some record →
    record.attempt ≤ record.request.maxAttempts.val
  /-- Keys and records correspond one to one. -/
  index : ∀ key id, x.store.byKey.lookup key = some id ↔
    ∃ record, x.store.records.lookup id = some record ∧ record.request.idempotencyKey = key

/-- What holds of the next step. -/
structure StepFenced (τ : List StoreEvent) (x : StoreSys) (e : StoreEvent) (x' : StoreSys) : Prop where
  /-- An accepted operation has the worker and the token of a lease that has not
  run out. -/
  holder : ∀ id lease, e.accepted = some (id, lease) →
    ∃ l ∈ outstanding id τ, l.worker = lease.worker ∧ l.token = lease.token ∧ x'.clock < l.deadline
  /-- Only the start of an attempt counts one. -/
  attempts : ∀ id record, x.store.records.lookup id = some record →
    ∃ record', x'.store.records.lookup id = some record' ∧ (record'.attempt = record.attempt ∨
      record'.attempt = record.attempt + 1 ∧ ∃ lease, e = .began id lease (.ok (.started record'.attempt)))

/-- What holds of any later state. -/
structure LaterFenced (x x' : StoreSys) : Prop where
  attempts : ∀ id record, x.store.records.lookup id = some record →
    ∃ record', x'.store.records.lookup id = some record' ∧ record.attempt ≤ record'.attempt
  /-- A completed or failed record does not change again. -/
  terminal : ∀ id record, x.store.records.lookup id = some record → record.status.isTerminal = true →
    x'.store.records.lookup id = some record

namespace LeaseBook

variable {τ : List StoreEvent} {x x' : StoreSys} {e : StoreEvent}

theorem fenced (h : LeaseBook τ x) : Fenced τ x where
  oneLease id now hn := by
    have hcur : ∀ l ∈ (outstanding id τ).filter fun l => decide (now < l.deadline),
        ∃ record, x.store.records.lookup id = some record ∧ record.status = .claimed l := by
      intro l hl
      rw [List.mem_filter, decide_eq_true_eq] at hl
      refine (h.stale id l hl.1).resolve_left ?_
      omega
    have hnodup : ((outstanding id τ).filter fun l => decide (now < l.deadline)).Nodup :=
      (List.Nodup.of_map _ (h.issued.sublist (h.tokens id))).filter _
    generalize (outstanding id τ).filter (fun l => decide (now < l.deadline)) = live at hcur hnodup
    match live with
    | [] => exact Nat.zero_le _
    | [_] => exact Nat.le_refl _
    | a :: b :: rest =>
      obtain ⟨record, hr, hs⟩ := hcur a List.mem_cons_self
      obtain ⟨record', hr', hs'⟩ := hcur b (List.mem_cons_of_mem _ List.mem_cons_self)
      rw [hr] at hr'
      cases hr'
      rw [hs] at hs'
      cases hs'
      simp at hnodup
  tokens := h.issued
  attempts := h.attempts
  index := h.indexed.index

theorem stepFenced (h : LeaseBook τ x) {a : StoreAction} (hs : outboxStore.step x a = some (x', e)) :
    StepFenced τ x e x' := by
  simp only [outboxStore] at hs
  split at hs
  · cases hs
  · obtain ⟨⟨s', e'⟩, ha, hs⟩ := Option.map_eq_some_iff.1 hs
    cases hs
    have hacts := InMemoryState.act_acts h.indexed ha
    refine ⟨fun id lease hacc => ?_, fun id record hr => ?_⟩
    · obtain ⟨record, hr, hc⟩ := hacts.accepted id lease hacc
      obtain ⟨current, hstatus, hf, hlt⟩ := leaseIsCurrent_iff.1 hc
      rw [OutboxLease.sameFence_iff] at hf
      exact ⟨current, h.held id record current hr hstatus, hf.1, hf.2, hlt⟩
    · have hrec := hacts.records id
      rw [hr] at hrec
      dsimp only
      generalize s'.records.lookup id = o' at hrec
      cases hrec with
      | same | reverted | exhausted | claimed | renewed => exact ⟨_, rfl, Or.inl rfl⟩
      | begun _ _ _ _ he => exact ⟨_, rfl, Or.inr ⟨rfl, _, he⟩⟩
      | settled _ _ _ _ _ hatt => exact ⟨_, rfl, Or.inl hatt⟩

/-- A terminal record survives a step as it is. -/
theorem terminal_step (h : LeaseBook τ x) {a : StoreAction} (hs : outboxStore.step x a = some (x', e))
    {id : OutboxId} {record : InMemoryRecord} (hr : x.store.records.lookup id = some record)
    (ht : record.status.isTerminal = true) : x'.store.records.lookup id = some record := by
  simp only [outboxStore] at hs
  split at hs
  · cases hs
  · obtain ⟨⟨s', e'⟩, ha, hs⟩ := Option.map_eq_some_iff.1 hs
    cases hs
    have hrec := (InMemoryState.act_acts h.indexed ha).records id
    rw [hr] at hrec
    dsimp only
    generalize s'.records.lookup id = o' at hrec
    cases hrec with
    | same => rfl
    | exhausted _ hne | claimed _ hne =>
      rw [ht] at hne
      cases hne
    | reverted hc | renewed hc | begun hc | settled hc =>
      rw [hc] at ht
      cases ht

end LeaseBook

theorem laterFenced {τ : List StoreEvent} {x : StoreSys} (hr : StoreRun τ x) {τ' : List StoreEvent} {x' : StoreSys}
    (hp : outboxStore.Path x τ' x') : LaterFenced x x' := by
  induction hp with
  | refl => exact ⟨fun _ record hr => ⟨record, hr, Nat.le_refl _⟩, fun _ _ hr _ => hr⟩
  | step hp hs ih =>
    have hbook := leaseBook_run (hr.path hp)
    refine ⟨fun id record hl => ?_, fun id record hl ht => ?_⟩
    · obtain ⟨record', hl', hle⟩ := ih.attempts id record hl
      obtain ⟨record'', hl'', hcount⟩ := (hbook.stepFenced hs).attempts id record' hl'
      exact ⟨record'', hl'', by omega⟩
    · exact hbook.terminal_step hs (ih.terminal id record hl ht) ht

/-- Leases fence the records of the store, and attempts are counted once each,
whatever the workers do. -/
theorem outbox_fenced {τ : List StoreEvent} {x : StoreSys} (hr : StoreRun τ x) :
    Fenced τ x ∧ (∀ a x' e, outboxStore.step x a = some (x', e) → StepFenced τ x e x') ∧
      ∀ τ' x', outboxStore.Path x τ' x' → LaterFenced x x' :=
  ⟨(leaseBook_run hr).fenced, fun _ _ _ hs => (leaseBook_run hr).stepFenced hs, fun _ _ hp => laterFenced hr hp⟩

/-- A request of one attempt. -/
def oneAttempt (key : String) : NewOutboxRequest :=
  ⟨key, [], 1, ⟨.global, 0, 128, ⟨1, one_nonZero⟩⟩, 0, ⟨1, one_nonZero⟩⟩

/-- A worker claims a record, extends its lease and lets it run out; another one
claims the record, tries it and completes it. -/
def takeoverRun : List StoreAction :=
  [.enqueue (oneAttempt "a") 0, .claimDue 1 0 10 ⟨4, by decide⟩ 0, .renewLease 0 ⟨1, 1, 10⟩ 20 5,
    .claimDue 2 20 10 ⟨4, by decide⟩ 21, .beginAttempt 0 ⟨1, 1, 20⟩ 22, .beginAttempt 0 ⟨2, 2, 30⟩ 22,
    .complete 0 ⟨2, 2, 30⟩ 23]

theorem outbox_fenced_takeoverRun : ∃ τ x, StoreRun τ x ∧ outstanding 0 τ = [⟨1, 1, 20⟩] ∧
    issuedTokens τ = [2, 1] ∧ (x.store.records.lookup 0).map (·.attempt) = some 1 ∧ Fenced τ x := by
  have hg : (outboxStore.exec Machine.anything [] ⟨.empty, 0⟩ takeoverRun).map
      (fun r => (outstanding 0 r.1, issuedTokens r.1, (r.2.store.records.lookup 0).map (·.attempt))) =
        some ([⟨1, 1, 20⟩], [2, 1], some 1) := by decide
  rw [Option.map_eq_some_iff] at hg
  obtain ⟨⟨τ, x⟩, he, hg⟩ := hg
  simp only [Prod.mk.injEq] at hg
  have hr : StoreRun τ x := Machine.run_of_exec (.start rfl) he
  exact ⟨τ, x, hr, hg.1, hg.2.1, hg.2.2, (outbox_fenced hr).1⟩

end Teloxide.Outbox
