import Mathlib
import Teloxide.Core.Machine

/-!
# Uploading one reader from several requests

A reader-backed `InputFile` can be cloned, and each clone turned into a part of a
multipart form (`crates/teloxide-core/src/types/input_file.rs:290-441`). The only owner
of the reader streams it. Of several owners the first to take the reader fills `buf`
with it, and the others wait for that.

`sharedReader` is every interleaving of the futures of all clones, one atomic operation
a step, a future being dropped wherever it may await. A reader gives its bytes in reads
of any size, and after them its end or an error.

* `shared_parts_stream`: if the future that fills `buf` is not dropped while there are
  other owners, and no future becomes the only owner of a reader that has been read
  since it looked at `is_taken`, then every part streams the reader's bytes in order or
  its error, `buf` is set once, and nobody waits for a future that is gone.
* `reader_dropped`: a future that is dropped while it fills `buf` leaves the others
  waiting.
-/
namespace Teloxide.Types.SharedReader

variable {E : Type}

abbrev Bytes : Type := List UInt8

/-! ## The reader -/

/-- What an `AsyncRead` has yet to give. -/
structure Reader (E : Type) where
  content : Bytes
  error : Option E
  deriving DecidableEq

/-- A read into a buffer with room for `room` bytes that gives `k` of them. -/
def Reader.read (r : Reader E) (room k : Nat) : Option (Except E Bytes × Reader E) :=
  if room = 0 then some (.ok [], r)
  else if r.content = [] then
    match r.error with
    | none => some (.ok [], r)
    | some error => some (.error error, { r with error := none })
  else if 0 < k ∧ k ≤ room ∧ k ≤ r.content.length then
    some (.ok (r.content.take k), { r with content := r.content.drop k })
  else none

structure BytesMut where
  data : Bytes
  capacity : Nat
  deriving DecidableEq

namespace BytesMut

def withCapacity (capacity : Nat) : BytesMut := ⟨[], capacity⟩

def full (bytes : BytesMut) : Bool := bytes.capacity ≤ bytes.data.length

/-- `read_buf` makes a full buffer larger before it reads. -/
def reserve (grow : Nat → Nat) (bytes : BytesMut) : BytesMut :=
  if bytes.full then { bytes with capacity := grow bytes.capacity } else bytes

def push (bytes : BytesMut) (got : Bytes) : BytesMut := { bytes with data := bytes.data ++ got }

end BytesMut

/-- mirrors input_file.rs:429-441 -/
def BytesDecoder.decode (src : Bytes) : Option Bytes × Bytes := if src.isEmpty then (none, src) else (some src, [])

/-! ## Parts and futures -/

/-- The stream behind a `Part`. -/
inductive Body (E : Type) where
  /-- a `FramedRead` over the reader, which stops at an error -/
  | framed (errored : Bool)
  /-- the next index into `buf` -/
  | iter (i : Nat)
  | once (error : Option E)
  deriving DecidableEq

/-- A part with what it has streamed. -/
structure Part (E : Type) where
  body : Body E
  items : List (Except E Bytes)
  ended : Bool
  deriving DecidableEq

/-- Where the future of a clone is in `into_part`. -/
inductive Phase (E : Type) where
  /-- the clone itself, or its future before the first poll -/
  | handle
  /-- `is_taken()` was false -/
  | untaken
  /-- in `into_shared_body` -/
  | shared
  /-- the reader was taken before -/
  | missed
  /-- in `wait.changed().await` -/
  | waiting
  /-- in `read_buf(&mut bytes).await` -/
  | reading (chunks : List Bytes) (bytes : BytesMut)
  /-- the loop is left -/
  | finished (res : Except E (List Bytes))
  | notifying
  /-- before `buf.get().unwrap()` -/
  | ready
  | part (part : Part E)
  | dropped
  deriving DecidableEq

namespace Phase

/-- It owns the reader, alone or with others. -/
def owns : Phase E → Bool
  | .part ⟨.framed _, _, _⟩ => true
  | .part _ | .dropped => false
  | _ => true

/-- It is going to set `buf`. -/
def fills : Phase E → Bool
  | .reading .. | .finished _ => true
  | _ => false

/-- It may be dropped here. -/
def awaits : Phase E → Bool
  | .handle | .waiting | .reading .. | .part _ => true
  | _ => false

def isReading : Phase E → Bool
  | .reading .. => true
  | _ => false

end Phase

/-- What all clones share.
mirrors input_file.rs:290-295 -/
structure Shared (E : Type) where
  reader : Reader E
  taken : Bool
  buf : Option (Except E (List Bytes))
  /-- a notification was sent -/
  notified : Bool
  deriving DecidableEq

inductive Event where
  /-- `buf.set` is called -/
  | set
  | panic
  | other
  deriving DecidableEq

def CHUNK : Nat := 1024

/-- One more item of a part, or its end; `k` bytes if the reader is read. -/
def Shared.stream (s : Shared E) (k : Nat) (part : Part E) : Option (Shared E × Phase E × Event) :=
  if part.ended then none
  else match part.body with
    | .framed true => some (s, .part { part with ended := true }, .other)
    | .framed false =>
      -- the buffer of a `FramedRead` has room for a byte at least
      match s.reader.read (max 1 k) k with
      | none => none
      | some (.error error, reader) =>
        some ({ s with reader },
          .part { part with body := .framed true, items := part.items ++ [.error error] }, .other)
      | some (.ok got, reader) =>
        match BytesDecoder.decode got with
        | (some item, _) => some ({ s with reader }, .part { part with items := part.items ++ [.ok item] }, .other)
        | (none, _) => some ({ s with reader }, .part { part with ended := true }, .other)
    | .iter i =>
      match s.buf with
      | some (.ok buf) =>
        match buf[i]? with
        | none => some (s, .part { part with ended := true }, .other)
        | some chunk => some (s, .part { part with body := .iter (i + 1), items := part.items ++ [.ok chunk] }, .other)
      | _ => some (s, .dropped, .panic)
    | .once none => some (s, .part { part with ended := true }, .other)
    | .once (some error) =>
      some (s, .part { part with body := .once none, items := part.items ++ [.error error] }, .other)

/-- The next operation of a future; `sole` when it owns the reader alone, and `k` are
the bytes it reads, if it does.
mirrors input_file.rs:304-412 -/
def Shared.advance (grow : Nat → Nat) (sole : Bool) (k : Nat) (s : Shared E) :
    Phase E → Option (Shared E × Phase E × Event)
  | .handle => some (s, if s.taken then .shared else .untaken, .other)
  -- `ArcBox::try_from` looks at the owners only, and `get` gives the reader whether it was taken or not
  | .untaken => some (s, if sole then .part ⟨.framed false, [], false⟩ else .shared, .other)
  | .shared =>
    if s.taken then some (s, .missed, .other)
    else some ({ s with taken := true }, .reading [] (.withCapacity CHUNK), .other)
  | .reading chunks bytes =>
    match s.reader.read ((bytes.reserve grow).capacity - (bytes.reserve grow).data.length) k with
    | none => none
    | some (.error error, reader) => some ({ s with reader }, .finished (.error error), .other)
    | some (.ok got, reader) =>
      if got.isEmpty then
        if (bytes.reserve grow).full then
          some ({ s with reader }, .reading (chunks ++ [bytes.data]) (.withCapacity CHUNK), .other)
        else some ({ s with reader }, .finished (.ok (chunks ++ [bytes.data])), .other)
      else some ({ s with reader }, .reading chunks ((bytes.reserve grow).push got), .other)
  -- a `OnceCell` keeps its first value
  | .finished res => some ({ s with buf := some (s.buf.getD res) }, .notifying, .set)
  | .notifying => some ({ s with notified := true }, .ready, .other)
  | .missed => some (s, if s.buf.isNone then .waiting else .ready, .other)
  | .waiting => if s.notified then some (s, .ready, .other) else none
  | .ready =>
    match s.buf with
    | none => some (s, .dropped, .panic)
    | some (.ok _) => some (s, .part ⟨.iter 0, [], false⟩, .other)
    | some (.error error) => some (s, .part ⟨.once (some error), [], false⟩, .other)
  | .part part => s.stream k part
  | .dropped => none

structure Sys (E : Type) where
  shared : Shared E
  clones : List (Phase E)
  deriving DecidableEq

inductive Action where
  | clone (i : Nat)
  | poll (i k : Nat)
  | drop (i : Nat)
  deriving DecidableEq

namespace Sys

/-- The strong count of the reader's `Arc`. -/
def owners (s : Sys E) : Nat := s.clones.countP Phase.owns

def step (grow : Nat → Nat) (s : Sys E) : Action → Option (Sys E × Event)
  | .clone i =>
    match s.clones[i]? with
    | some .handle => some ({ s with clones := s.clones ++ [.handle] }, .other)
    | _ => none
  | .poll i k =>
    match s.clones[i]? with
    | none => none
    | some phase =>
      (s.shared.advance grow (s.owners == 1) k phase).map fun r => (⟨r.1, s.clones.set i r.2.1⟩, r.2.2)
  | .drop i =>
    match s.clones[i]? with
    | none => none
    | some phase => if phase.awaits then some ({ s with clones := s.clones.set i .dropped }, .other) else none

end Sys

/-- The clones of one `InputFile` over the reader `r`. -/
def sharedReader (r : Reader E) (grow : Nat → Nat) : Core.Machine (Sys E) Action Event where
  init s := s = ⟨⟨r, false, none, false⟩, [.handle]⟩
  step := Sys.step grow

/-! ## What is asked of a run -/

/-- The bytes of the reader were streamed in order: so far, to their end, or to the error. -/
def Part.Streams (r : Reader E) (part : Part E) : Prop :=
  ∃ chunks : List Bytes, chunks.flatten <+: r.content ∧
    (part.items = chunks.map .ok ∧ (part.ended = true → r.error = none ∧ chunks.flatten = r.content) ∨
      ∃ error, r.error = some error ∧ part.items = chunks.map .ok ++ [.error error])

/-- Someone waits for `buf`, and nobody will set it. -/
def Sys.Stranded (s : Sys E) : Prop :=
  .waiting ∈ s.clones ∧ s.shared.taken = true ∧ s.shared.buf = none ∧ ∀ phase ∈ s.clones, phase.fills = false

structure Good (r : Reader E) (τ : List Event) (s : Sys E) : Prop where
  streams : ∀ part, .part part ∈ s.clones → part.Streams r
  once : τ.count .set ≤ 1
  unwraps : .panic ∉ τ
  served : ¬ s.Stranded

/-- A future that reads is dropped only as the last owner of the reader, and the last
owner finds a reader that was not read since it looked at `is_taken`. -/
def Sys.Allowed (r : Reader E) (s : Sys E) : Action → Prop
  | .clone _ => True
  | .poll i _ =>
    s.clones[i]? = some .untaken → s.owners = 1 → s.shared.taken = true → s.shared.reader = r
  | .drop i => s.clones[i]?.any Phase.isReading = true → s.owners = 1

instance [DecidableEq E] (r : Reader E) (s : Sys E) : (a : Action) → Decidable (s.Allowed r a)
  | .clone _ => inferInstanceAs (Decidable True)
  | .poll _ _ => inferInstanceAs (Decidable (_ → _))
  | .drop _ => inferInstanceAs (Decidable (_ → _))

/-! ## The list of the clones -/

section Clones

variable {α : Type} {l : List α} {i j : Nat} {x y z : α}

theorem get_set (h : (l.set i y)[j]? = some z) : j = i ∧ z = y ∨ j ≠ i ∧ l[j]? = some z := by
  rw [List.getElem?_set] at h
  split at h
  · split at h
    · exact .inl ⟨by omega, (Option.some.inj h).symm⟩
    · cases h
  · exact .inr ⟨by omega, h⟩

theorem get_push (h : (l ++ [y])[j]? = some z) : l[j]? = some z ∨ z = y := by
  rcases Nat.lt_or_ge j l.length with hj | hj
  · rw [List.getElem?_append_left hj] at h
    exact .inl h
  · rw [List.getElem?_append_right hj] at h
    exact .inr (List.mem_singleton.1 (List.mem_of_getElem? h))

theorem get_pushed (h : l[j]? = some z) (y : α) : (l ++ [y])[j]? = some z := by
  rw [List.getElem?_append_left (List.getElem?_eq_some_iff.1 h).1]
  exact h

/-- If one element counts, there is no other. -/
theorem only_of_count {f : α → Bool} (h : l.countP f = 1) (hi : l[i]? = some x) (hx : f x = true)
    (hj : l[j]? = some y) (hy : f y = true) : j = i := by
  by_contra hne
  obtain ⟨hlt, rfl⟩ := List.getElem?_eq_some_iff.1 hi
  have hsplit : (l.take i ++ l.drop i).countP f = (l.take i).countP f + (l.drop i).countP f := List.countP_append
  rw [List.take_append_drop, List.drop_eq_getElem_cons hlt, List.countP_cons_of_pos hx] at hsplit
  have hbefore : (l.take i).countP f = 0 := by omega
  have hafter : (l.drop (i + 1)).countP f = 0 := by omega
  rcases Nat.lt_or_ge j i with hj' | hj'
  · have hmem : y ∈ l.take i := List.mem_of_getElem? (by rw [List.getElem?_take_of_lt hj']; exact hj)
    exact absurd hy (List.countP_eq_zero.1 hbefore y hmem)
  · have hmem : y ∈ l.drop (i + 1) :=
      List.mem_of_getElem? (i := j - (i + 1)) (by rw [List.getElem?_drop, ← hj]; congr 1; omega)
    exact absurd hy (List.countP_eq_zero.1 hafter y hmem)

end Clones

/-! ## What each future may rely on -/

namespace Phase

/-- It streams the reader itself. -/
def isFramed : Phase E → Bool
  | .part ⟨.framed _, _, _⟩ => true
  | _ => false

def reads (phase : Phase E) : Bool := phase.fills || phase.isFramed

theorem owns_of_fills {phase : Phase E} (h : phase.fills = true) : phase.owns = true := by
  cases phase <;> first | rfl | cases h

end Phase

def Result (r : Reader E) : Except E (List Bytes) → Prop
  | .ok chunks => r.error = none ∧ chunks.flatten = r.content
  | .error error => r.error = some error

/-- The error was streamed. -/
def Part.Failed (r : Reader E) (part : Part E) : Prop :=
  ∃ chunks : List Bytes, chunks.flatten <+: r.content ∧
    ∃ error, r.error = some error ∧ part.items = chunks.map .ok ++ [.error error]

/-- What is left to stream of a part goes with what it has streamed. -/
def Part.Goes (r : Reader E) (s : Shared E) (part : Part E) : Prop :=
  match part.body with
  | .framed false => ∃ chunks : List Bytes, part.items = chunks.map .ok ∧
      chunks.flatten ++ s.reader.content = r.content ∧ s.reader.error = r.error
  | .framed true | .once none => part.Failed r
  | .iter i => ∃ buf : List Bytes, s.buf = some (.ok buf) ∧ part.items = (buf.take i).map .ok ∧
      r.error = none ∧ buf.flatten = r.content
  | .once (some error) => part.items = [] ∧ r.error = some error

def Fits (r : Reader E) (s : Shared E) : Phase E → Prop
  | .missed | .waiting => s.taken = true
  | .reading chunks bytes => chunks.flatten ++ bytes.data ++ s.reader.content = r.content ∧ s.reader.error = r.error
  | .finished res => Result r res
  | .notifying | .ready => s.buf.isSome = true
  | .part part => part.Streams r ∧ (part.ended = false → part.Goes r s)
  | _ => True

theorem Part.Failed.streams {r : Reader E} {part : Part E} (h : part.Failed r) : part.Streams r := by
  obtain ⟨chunks, hchunks, herror⟩ := h
  exact ⟨chunks, hchunks, .inr herror⟩

theorem Part.Goes.streams {r : Reader E} {s : Shared E} {part : Part E} (h : part.Goes r s) (he : part.ended = false) :
    part.Streams r := by
  obtain ⟨body, items, ended⟩ := part
  cases he
  unfold Part.Goes at h
  split at h
  · obtain ⟨chunks, hitems, hcontent, -⟩ := h
    exact ⟨chunks, ⟨_, hcontent⟩, .inl ⟨hitems, nofun⟩⟩
  · exact Part.Failed.streams h
  · exact Part.Failed.streams h
  · obtain ⟨buf, -, hitems, -, hcontent⟩ := h
    rename_i i _
    have hprefix : (buf.take i).flatten <+: buf.flatten :=
      ⟨(buf.drop i).flatten, by rw [← List.flatten_append, List.take_append_drop]⟩
    exact ⟨_, hcontent ▸ hprefix, .inl ⟨hitems, nofun⟩⟩
  · exact ⟨[], List.nil_prefix, .inl ⟨h.1, nofun⟩⟩

/-- Nothing of this is lost as the others go on. -/
theorem Fits.mono {r : Reader E} {s s' : Shared E} {phase : Phase E} (h : Fits r s phase)
    (htaken : s.taken = true → s'.taken = true) (hbuf : s.buf.isSome = true → s'.buf = s.buf)
    (hreader : phase.reads = true → s'.reader = s.reader) : Fits r s' phase := by
  cases phase with
  | handle | untaken | shared | finished | dropped => exact h
  | missed | waiting => exact htaken h
  | reading chunks bytes =>
    simp only [Fits, hreader rfl]
    exact h
  | notifying | ready =>
    have hsome : s.buf.isSome = true := h
    simp only [Fits, hbuf hsome, hsome]
  | part part =>
    refine ⟨h.1, fun he => ?_⟩
    have hgoes := h.2 he
    obtain ⟨body, items, ended⟩ := part
    cases body with
    | framed errored =>
      cases errored with
      | false =>
        simp only [Part.Goes, hreader rfl]
        exact hgoes
      | true => exact hgoes
    | iter i =>
      obtain ⟨buf, hsome, hrest⟩ := hgoes
      exact ⟨buf, by rw [hbuf (by rw [hsome]; rfl), hsome], hrest⟩
    | once error => cases error <;> exact hgoes

/-! ## What an operation can do -/

/-- The operation takes a future from `p` to `p'`, and what is shared from `s` to `s'`. -/
structure Turn (r : Reader E) (sole : Bool) (s : Shared E) (p : Phase E) (s' : Shared E) (p' : Phase E) (e : Event) :
    Prop where
  fits : Fits r s' p'
  taken : s.taken = true → s'.taken = true
  takes : s'.taken = true → s.taken = true ∨ p'.fills = true
  buf : s.buf.isSome = true → s'.buf = s.buf
  sets : s'.buf = s.buf ∧ e ≠ .set ∨ e = .set ∧ p.fills = true ∧ ∃ res, s'.buf = some res ∧ Result r res
  reader : p.reads = false → s'.reader = s.reader
  owns : p'.owns = true → p.owns = true
  framed : p'.isFramed = true → p.isFramed = true ∨ sole = true ∧ p.owns = true
  stays : p.isFramed = true → p'.isFramed = true ∨ p'.owns = false
  fills : p'.fills = true → s'.taken = true ∧ s'.buf = none ∧ (p.fills = true ∨ s.taken = false)
  keeps : p.fills = true → p'.fills = true ∨ s'.buf.isSome = true ∨ sole = true ∧ p'.owns = false
  notified : s'.notified = true → s.notified = true ∨ s'.buf.isSome = true
  panic : e ≠ .panic

section Turns

variable {r : Reader E} {sole : Bool} {s s' : Shared E} {p p' : Phase E} {e : Event} {grow : Nat → Nat} {k : Nat}

theorem Turn.quiet (hfits : Fits r s p') (howns : p'.owns = true → p.owns = true) (hp : p.reads = false)
    (hp' : p'.reads = false) : Turn r sole s p s p' .other := by
  simp only [Phase.reads, Bool.or_eq_false_iff] at hp hp'
  exact
    { fits := hfits
      taken := id
      takes := .inl
      buf := fun _ => rfl
      sets := .inl ⟨rfl, nofun⟩
      reader := fun _ => rfl
      owns := howns
      framed := fun h => by rw [hp'.2] at h; cases h
      stays := fun h => by rw [hp.2] at h; cases h
      fills := fun h => by rw [hp'.1] at h; cases h
      keeps := fun h => by rw [hp.1] at h; cases h
      notified := .inl
      panic := nofun }

/-- A part goes on; only one over the reader changes the reader. -/
theorem Turn.streams {part part' : Part E} {reader : Reader E} (hfits : Fits r { s with reader } (.part part'))
    (hreader : reader = s.reader ∨ (Phase.part part).isFramed = true)
    (hframed : (Phase.part part').isFramed = (Phase.part part).isFramed)
    (howns : (Phase.part part').owns = (Phase.part part).owns) :
    Turn r sole s (.part part) { s with reader } (.part part') .other where
  fits := hfits
  taken := id
  takes := .inl
  buf := fun _ => rfl
  sets := .inl ⟨rfl, nofun⟩
  reader := fun h => by
    rcases hreader with rfl | hf
    · rfl
    · rw [Phase.reads, hf, Bool.or_true] at h
      cases h
  owns := fun h => howns ▸ h
  framed := fun h => .inl (hframed ▸ h)
  stays := fun h => .inl (hframed ▸ h)
  fills := nofun
  keeps := nofun
  notified := .inl
  panic := nofun

/-- The future that has taken the reader reads on, or leaves its loop. -/
theorem Turn.reads {reader : Reader E} (hfits : Fits r { s with reader } p') (hp : p.fills = true)
    (hp' : p'.fills = true) (hs : s.taken = true ∧ s.buf = none) (howns : p.owns = true) (hf : p.isFramed = false)
    (hf' : p'.isFramed = false) : Turn r sole s p { s with reader } p' .other where
  fits := hfits
  taken := id
  takes := .inl
  buf := fun _ => rfl
  sets := .inl ⟨rfl, nofun⟩
  reader := fun h => by
    rw [Phase.reads, hp] at h
    cases h
  owns := fun _ => howns
  framed := fun h => by rw [hf'] at h; cases h
  stays := fun h => by rw [hf] at h; cases h
  fills := fun _ => ⟨hs.1, hs.2, .inl hp⟩
  keeps := fun _ => .inl hp'
  notified := .inl
  panic := nofun

theorem read_cases {reader reader' : Reader E} {room k : Nat} {res : Except E Bytes}
    (h : reader.read room k = some (res, reader')) :
    (∃ got, res = .ok got ∧ got ++ reader'.content = reader.content ∧ reader'.error = reader.error ∧
        (got = [] → room = 0 ∨ reader.content = [] ∧ reader.error = none)) ∨
      ∃ error, res = .error error ∧ reader.content = [] ∧ reader.error = some error := by
  unfold Reader.read at h
  split at h
  · rename_i hroom
    cases h
    exact .inl ⟨[], rfl, rfl, rfl, fun _ => .inl hroom⟩
  split at h
  · rename_i hcontent
    split at h <;> cases h
    · rename_i herror
      exact .inl ⟨[], rfl, rfl, rfl, fun _ => .inr ⟨hcontent, herror⟩⟩
    · rename_i error herror
      exact .inr ⟨error, rfl, hcontent, herror⟩
  split at h <;> cases h
  rename_i hcontent hk
  refine .inl ⟨_, rfl, List.take_append_drop _ _, rfl, fun hnil => ?_⟩
  have hlen := congrArg List.length hnil
  rw [List.length_take, List.length_nil] at hlen
  omega

/-- What a future that reads has in its chunks when it has read `got`. -/
theorem reading_content {chunks : List Bytes} {data got rest content : Bytes}
    (h : chunks.flatten ++ data ++ (got ++ rest) = content) :
    chunks.flatten ++ (data ++ got) ++ rest = content := by
  rw [← h]
  simp only [List.append_assoc]

theorem reading_turn {chunks : List Bytes} {bytes : BytesMut} (hfits : Fits r s (.reading chunks bytes))
    (hs : s.taken = true ∧ s.buf = none) (h : s.advance grow sole k (.reading chunks bytes) = some (s', p', e)) :
    Turn r sole s (.reading chunks bytes) s' p' e := by
  obtain ⟨hcontent, herror⟩ := hfits
  have hdata : (bytes.reserve grow).data = bytes.data := by
    unfold BytesMut.reserve
    split <;> rfl
  simp only [Shared.advance] at h
  split at h
  · cases h
  · rename_i error reader hread
    cases h
    rcases read_cases hread with ⟨_, hres, -⟩ | ⟨_, hres, -, hsome⟩
    · cases hres
    · cases hres
      exact .reads (herror.symm.trans hsome) rfl rfl hs rfl rfl rfl
  · rename_i got reader hread
    rcases read_cases hread with ⟨_, hres, hgot, hsame, hend⟩ | ⟨_, hres, -⟩
    · cases hres
      rw [← hgot] at hcontent
      split at h
      · rename_i hempty
        have hnil : got = [] := List.isEmpty_iff.1 hempty
        subst hnil
        split at h <;> cases h
        · -- no space was left in `bytes`
          refine .reads ⟨?_, hsame.trans herror⟩ rfl rfl hs rfl rfl rfl
          rw [List.flatten_append, List.flatten_cons, List.flatten_nil, List.append_nil]
          simpa only [BytesMut.withCapacity, List.append_nil, List.nil_append] using hcontent
        · rename_i hfull
          have hroom : ¬ (bytes.reserve grow).capacity - (bytes.reserve grow).data.length = 0 := by
            simp only [BytesMut.full, decide_eq_true_eq] at hfull
            omega
          obtain hzero | ⟨hleft, hnone⟩ := hend rfl
          · exact absurd hzero hroom
          · refine .reads ⟨herror.symm.trans hnone, ?_⟩ rfl rfl hs rfl rfl rfl
            rw [List.nil_append] at hgot
            rw [hgot, hleft] at hcontent
            rw [List.flatten_append, List.flatten_cons, List.flatten_nil, List.append_nil]
            simpa only [List.append_nil, List.nil_append] using hcontent
      · cases h
        refine .reads ⟨?_, hsame.trans herror⟩ rfl rfl hs rfl rfl rfl
        simp only [BytesMut.push, hdata]
        exact reading_content hcontent
    · cases hres

theorem stream_turn {part : Part E} (hfits : Fits r s (.part part)) (h : s.stream k part = some (s', p', e)) :
    Turn r sole s (.part part) s' p' e := by
  obtain ⟨body, items, ended⟩ := part
  unfold Shared.stream at h
  dsimp only at h
  split at h
  · cases h
  rename_i hended
  have hended : ended = false := by simpa using hended
  subst hended
  have hgoes := hfits.2 rfl
  split at h
  · -- the stream has failed
    cases h
    exact .streams ⟨Part.Failed.streams hgoes, nofun⟩ (.inr rfl) rfl rfl
  · obtain ⟨chunks, hitems, hcontent, herror⟩ := hgoes
    dsimp only at hitems
    split at h
    · cases h
    · rename_i error reader hread
      cases h
      rcases read_cases hread with ⟨_, hres, -⟩ | ⟨_, hres, hleft, hsome⟩
      · cases hres
      · cases hres
        rw [hleft, List.append_nil] at hcontent
        have hfailed : Part.Failed r (⟨.framed true, items ++ [.error error], false⟩ : Part E) :=
          ⟨chunks, hcontent ▸ List.prefix_refl _, error, herror.symm.trans hsome, by rw [hitems]⟩
        exact .streams ⟨hfailed.streams, fun _ => hfailed⟩ (.inr rfl) rfl rfl
    · rename_i got reader hread
      rcases read_cases hread with ⟨_, hres, hgot, hsame, hend⟩ | ⟨_, hres, -⟩
      · cases hres
        cases got with
        | nil =>
          cases h
          have hleft : s.reader.content = [] ∧ s.reader.error = none := (hend rfl).resolve_left (by omega)
          rw [hleft.1, List.append_nil] at hcontent
          have hstreams : Part.Streams r (⟨.framed false, items, true⟩ : Part E) :=
            ⟨chunks, hcontent ▸ List.prefix_refl _, .inl ⟨hitems, fun _ => ⟨herror.symm.trans hleft.2, hcontent⟩⟩⟩
          exact .streams ⟨hstreams, nofun⟩ (.inr rfl) rfl rfl
        | cons byte got =>
          cases h
          have hgoes : Part.Goes r { s with reader } ⟨.framed false, items ++ [.ok (byte :: got)], false⟩ := by
            refine ⟨chunks ++ [byte :: got], ?_, ?_, hsame.trans herror⟩
            · simp only [hitems, List.map_append, List.map_cons, List.map_nil]
            · rw [List.flatten_append, List.flatten_cons, List.flatten_nil, List.append_nil, List.append_assoc, hgot,
                hcontent]
          exact .streams ⟨hgoes.streams rfl, fun _ => hgoes⟩ (.inr rfl) rfl rfl
      · cases hres
  · obtain ⟨buf, hbuf, hitems, herror, hcontent⟩ := hgoes
    dsimp only at hitems
    rename_i i
    split at h
    · rename_i buf' hbuf'
      rw [hbuf] at hbuf'
      cases hbuf'
      split at h <;> cases h
      · rename_i hnone
        have hall : buf.take i = buf := List.take_of_length_le (List.getElem?_eq_none_iff.1 hnone)
        have hstreams : Part.Streams r (⟨.iter i, items, true⟩ : Part E) :=
          ⟨buf, hcontent ▸ List.prefix_refl _, .inl ⟨by rw [hitems, hall], fun _ => ⟨herror, hcontent⟩⟩⟩
        exact .streams ⟨hstreams, nofun⟩ (.inl rfl) rfl rfl
      · rename_i chunk hchunk
        have hgoes : Part.Goes r s ⟨.iter (i + 1), items ++ [.ok chunk], false⟩ := by
          refine ⟨buf, hbuf, ?_, herror, hcontent⟩
          rw [hitems, List.take_add_one, hchunk, Option.toList_some, List.map_append, List.map_cons, List.map_nil]
        exact .streams ⟨hgoes.streams rfl, fun _ => hgoes⟩ (.inl rfl) rfl rfl
    · rename_i hno
      exact absurd hbuf (hno buf)
  · cases h
    exact .streams ⟨Part.Failed.streams hgoes, nofun⟩ (.inl rfl) rfl rfl
  · rename_i error
    cases h
    obtain ⟨hitems, herror⟩ := hgoes
    have hfailed : Part.Failed r (⟨.once none, items ++ [.error error], false⟩ : Part E) :=
      ⟨[], List.nil_prefix, error, herror, by rw [show items = [] from hitems]; rfl⟩
    exact .streams ⟨hfailed.streams, fun _ => hfailed⟩ (.inl rfl) rfl rfl

/-- Every operation of a future, given what it may rely on. -/
theorem advance_turn (hfits : Fits r s p) (hfills : p.fills = true → s.taken = true ∧ s.buf = none)
    (hfresh : p.owns = true → s.taken = false → p.isFramed = true ∨ s.reader = r)
    (hsole : p = .untaken → sole = true → s.taken = true → s.reader = r)
    (hbuf : ∀ res, s.buf = some res → s.taken = true ∧ Result r res)
    (hnotified : s.notified = true → s.buf.isSome = true) (h : s.advance grow sole k p = some (s', p', e)) :
    Turn r sole s p s' p' e := by
  have hstart : s.taken = false → s.buf = none := by
    intro ht
    cases hb : s.buf with
    | none => rfl
    | some res => rw [(hbuf res hb).1] at ht; cases ht
  cases p with
  | handle =>
    cases h
    split
    · exact .quiet trivial id rfl rfl
    · exact .quiet trivial id rfl rfl
  | untaken =>
    cases h
    split
    · rename_i hs
      have hreader : s.reader = r := by
        cases ht : s.taken with
        | false => exact (hfresh rfl ht).resolve_left nofun
        | true => exact hsole rfl hs ht
      have hgoes : Part.Goes r s ⟨.framed false, [], false⟩ :=
        ⟨[], rfl, by rw [hreader]; rfl, by rw [hreader]⟩
      exact
        { fits := ⟨hgoes.streams rfl, fun _ => hgoes⟩
          taken := id
          takes := .inl
          buf := fun _ => rfl
          sets := .inl ⟨rfl, nofun⟩
          reader := fun _ => rfl
          owns := fun _ => rfl
          framed := fun _ => .inr ⟨hs, rfl⟩
          stays := nofun
          fills := nofun
          keeps := nofun
          notified := .inl
          panic := nofun }
    · exact .quiet trivial id rfl rfl
  | shared =>
    simp only [Shared.advance] at h
    split at h <;> cases h
    · rename_i ht
      exact .quiet ht id rfl rfl
    · rename_i ht
      have ht : s.taken = false := by simpa using ht
      have hreader : s.reader = r := (hfresh rfl ht).resolve_left nofun
      exact
        { fits := ⟨by rw [hreader]; rfl, by rw [hreader]⟩
          taken := fun _ => rfl
          takes := fun _ => .inr rfl
          buf := fun _ => rfl
          sets := .inl ⟨rfl, nofun⟩
          reader := fun _ => rfl
          owns := fun _ => rfl
          framed := nofun
          stays := nofun
          fills := fun _ => ⟨rfl, hstart ht, .inr ht⟩
          keeps := nofun
          notified := .inl
          panic := nofun }
  | missed =>
    cases h
    have ht : s.taken = true := hfits
    split
    · exact .quiet ht id rfl rfl
    · rename_i hb
      have hb : s.buf.isSome = true := by simpa [Option.isSome_iff_ne_none] using hb
      exact .quiet hb id rfl rfl
  | waiting =>
    simp only [Shared.advance] at h
    split at h <;> cases h
    rename_i hn
    exact .quiet (hnotified hn) id rfl rfl
  | reading chunks bytes => exact reading_turn hfits (hfills rfl) h
  | finished res =>
    cases h
    have hres : Result r res := hfits
    rw [(hfills rfl).2]
    exact
      { fits := rfl
        taken := id
        takes := .inl
        buf := fun hb => by rw [(hfills rfl).2] at hb; cases hb
        sets := .inr ⟨rfl, rfl, res, rfl, hres⟩
        reader := nofun
        owns := fun _ => rfl
        framed := nofun
        stays := nofun
        fills := nofun
        keeps := fun _ => .inr (.inl rfl)
        notified := .inl
        panic := nofun }
  | notifying =>
    cases h
    have hb : s.buf.isSome = true := hfits
    exact
      { fits := hb
        taken := id
        takes := .inl
        buf := fun _ => rfl
        sets := .inl ⟨rfl, nofun⟩
        reader := fun _ => rfl
        owns := fun _ => rfl
        framed := nofun
        stays := nofun
        fills := nofun
        keeps := nofun
        notified := fun _ => .inr hb
        panic := nofun }
  | ready =>
    have hb : s.buf.isSome = true := hfits
    simp only [Shared.advance] at h
    split at h
    · rename_i hnone
      rw [hnone] at hb
      cases hb
    · rename_i chunks hsome
      cases h
      have hgoes : Part.Goes r s ⟨.iter 0, [], false⟩ := ⟨chunks, hsome, rfl, (hbuf _ hsome).2⟩
      exact .quiet ⟨hgoes.streams rfl, fun _ => hgoes⟩ nofun rfl rfl
    · rename_i error hsome
      cases h
      have hgoes : Part.Goes r s ⟨.once (some error), [], false⟩ := ⟨rfl, (hbuf _ hsome).2⟩
      exact .quiet ⟨hgoes.streams rfl, fun _ => hgoes⟩ nofun rfl rfl
  | part part => exact stream_turn hfits h
  | dropped => cases h

end Turns

/-! ## The invariant -/

structure Inv (r : Reader E) (τ : List Event) (s : Sys E) : Prop where
  fits : ∀ (i : Nat) p, s.clones[i]? = some p → Fits r s.shared p
  one : ∀ (i j : Nat) p q, s.clones[i]? = some p → s.clones[j]? = some q → p.fills = true → q.fills = true → j = i
  /-- Who streams the reader is its only owner. -/
  alone : ∀ (i j : Nat) p q, s.clones[i]? = some p → s.clones[j]? = some q → p.isFramed = true → q.owns = true →
    j = i
  fills : ∀ (i : Nat) p, s.clones[i]? = some p → p.fills = true → s.shared.taken = true ∧ s.shared.buf = none
  /-- As long as there is an owner, the reader that was taken is being read. -/
  filler : s.shared.taken = true → s.shared.buf = none → ∀ (i : Nat) p, s.clones[i]? = some p →
    p.owns = true → ∃ (j : Nat) (q : Phase E), s.clones[j]? = some q ∧ q.fills = true
  fresh : ∀ (i : Nat) p, s.clones[i]? = some p → p.owns = true → s.shared.taken = false →
    p.isFramed = true ∨ s.shared.reader = r
  result : ∀ res, s.shared.buf = some res → s.shared.taken = true ∧ Result r res
  notified : s.shared.notified = true → s.shared.buf.isSome = true
  sets : τ.count .set = if s.shared.buf.isSome then 1 else 0
  panics : .panic ∉ τ

section Invariant

variable {r : Reader E} {τ : List Event} {s : Sys E}

theorem Inv.start (r : Reader E) : Inv r [] ⟨⟨r, false, none, false⟩, [.handle]⟩ := by
  have hall : ∀ (i : Nat) (p : Phase E), [Phase.handle][i]? = some p → p = .handle :=
    fun _ _ h => List.mem_singleton.1 (List.mem_of_getElem? h)
  exact
    { fits := fun i p h => by rw [hall i p h]; trivial
      one := fun i _ p _ h _ hp => by rw [hall i p h] at hp; cases hp
      alone := fun i _ p _ h _ hp => by rw [hall i p h] at hp; cases hp
      fills := fun i p h hp => by rw [hall i p h] at hp; cases hp
      filler := nofun
      fresh := fun _ _ _ _ _ => .inr rfl
      result := nofun
      notified := nofun
      sets := rfl
      panics := nofun }

/-- A future makes a turn. -/
theorem Inv.turn (hi : Inv r τ s) {i : Nat} {p p' : Phase E} {s' : Shared E} {e : Event} (hp : s.clones[i]? = some p)
    (ht : Turn r (s.owners == 1) s.shared p s' p' e) : Inv r (e :: τ) ⟨s', s.clones.set i p'⟩ := by
  have hlt : i < s.clones.length := (List.getElem?_eq_some_iff.1 hp).1
  have hself : (s.clones.set i p')[i]? = some p' := List.getElem?_set_self hlt
  have hother : ∀ {j q}, j ≠ i → s.clones[j]? = some q → (s.clones.set i p')[j]? = some q := by
    intro j q hj hq
    rw [List.getElem?_set_ne (Ne.symm hj)]
    exact hq
  have hsole : (s.owners == 1) = true → p.owns = true → ∀ {j q}, s.clones[j]? = some q → q.owns = true → j = i :=
    fun hs hown j q hq hq' => only_of_count (beq_iff_eq.1 hs) hp hown hq hq'
  -- what reads the reader has it for itself
  have hreader : ∀ {j q}, j ≠ i → s.clones[j]? = some q → q.owns = true → (s.shared.taken = false ∨ q.reads = true) →
      s'.reader = s.shared.reader := by
    intro j q hj hq hown huse
    cases hr : p.reads with
    | false => exact ht.reader hr
    | true =>
      rw [Phase.reads, Bool.or_eq_true] at hr
      rcases hr with hfill | hframe
      · rcases huse with htaken | huse
        · rw [(hi.fills i p hp hfill).1] at htaken
          cases htaken
        · rw [Phase.reads, Bool.or_eq_true] at huse
          rcases huse with hq' | hq'
          · exact absurd (hi.one i j p q hp hq hfill hq') hj
          · exact absurd (hi.alone j i q p hq hp hq' (Phase.owns_of_fills hfill)).symm hj
      · exact absurd (hi.alone i j p q hp hq hframe hown) hj
  have hbuf : s'.buf = none → s.shared.buf = none := by
    intro hnone
    cases hb : s.shared.buf with
    | none => rfl
    | some res => rw [ht.buf (by rw [hb]; rfl), hb] at hnone; cases hnone
  have htaken : s'.taken = false → s.shared.taken = false := by
    intro hf
    cases hs : s.shared.taken with
    | false => rfl
    | true => rw [ht.taken hs] at hf; cases hf
  constructor
  case fits =>
    intro j q hq
    rcases get_set hq with ⟨-, rfl⟩ | ⟨hj, hq⟩
    · exact ht.fits
    · refine (hi.fits j q hq).mono ht.taken ht.buf fun hr => hreader hj hq ?_ (.inr hr)
      rw [Phase.reads, Bool.or_eq_true] at hr
      rcases hr with hr | hr
      · exact Phase.owns_of_fills hr
      · unfold Phase.isFramed at hr
        split at hr
        · rfl
        · cases hr
  case one =>
    intro j k q q' hq hq' hfill hfill'
    rcases get_set hq with ⟨hj, hqp⟩ | ⟨hj, hq₀⟩ <;> rcases get_set hq' with ⟨hk, hqp'⟩ | ⟨hk, hq₀'⟩
    · rw [hj, hk]
    · rw [hqp] at hfill
      rcases (ht.fills hfill).2.2 with hold | hfree
      · rw [hj]
        exact hi.one _ _ _ _ hp hq₀' hold hfill'
      · rw [(hi.fills _ _ hq₀' hfill').1] at hfree
        cases hfree
    · rw [hqp'] at hfill'
      rcases (ht.fills hfill').2.2 with hold | hfree
      · rw [hk]
        exact hi.one _ _ _ _ hq₀ hp hfill hold
      · rw [(hi.fills _ _ hq₀ hfill).1] at hfree
        cases hfree
    · exact hi.one _ _ _ _ hq₀ hq₀' hfill hfill'
  case alone =>
    intro j k q q' hq hq' hframe hown
    rcases get_set hq with ⟨hj, hqp⟩ | ⟨hj, hq₀⟩ <;> rcases get_set hq' with ⟨hk, hqp'⟩ | ⟨hk, hq₀'⟩
    · rw [hj, hk]
    · rw [hqp] at hframe
      rw [hj]
      rcases ht.framed hframe with hold | ⟨hs, hold⟩
      · exact hi.alone _ _ _ _ hp hq₀' hold hown
      · exact hsole hs hold hq₀' hown
    · rw [hqp'] at hown
      rw [hk]
      exact hi.alone _ _ _ _ hq₀ hp hframe (ht.owns hown)
    · exact hi.alone _ _ _ _ hq₀ hq₀' hframe hown
  case fills =>
    intro j q hq hfill
    rcases get_set hq with ⟨rfl, rfl⟩ | ⟨hj, hq⟩
    · exact ⟨(ht.fills hfill).1, (ht.fills hfill).2.1⟩
    · obtain ⟨hs, hnone⟩ := hi.fills j q hq hfill
      refine ⟨ht.taken hs, ?_⟩
      rcases ht.sets with ⟨hsame, -⟩ | ⟨-, hold, -⟩
      · exact hsame.trans hnone
      · exact absurd (hi.one _ _ _ _ hp hq hold hfill) hj
  case filler =>
    intro hs hnone j q hq hown
    by_cases hfill' : p'.fills = true
    · exact ⟨i, p', hself, hfill'⟩
    have howner : ∃ (j : Nat) (q : Phase E), s.clones[j]? = some q ∧ q.owns = true := by
      rcases get_set hq with ⟨rfl, rfl⟩ | ⟨-, hq⟩
      · exact ⟨_, _, hp, ht.owns hown⟩
      · exact ⟨_, _, hq, hown⟩
    obtain ⟨j', q', hq', hown'⟩ := howner
    obtain ⟨k, x, hx, hfill⟩ := hi.filler ((ht.takes hs).resolve_right hfill') (hbuf hnone) j' q' hq' hown'
    by_cases hk : k = i
    · subst hk
      rw [hp] at hx
      cases hx
      rcases ht.keeps hfill with hc | hc | ⟨hs', hgone⟩
      · exact absurd hc hfill'
      · rw [show s'.buf = none from hnone] at hc
        cases hc
      · rcases get_set hq with ⟨rfl, rfl⟩ | ⟨hj, hq⟩
        · rw [hgone] at hown
          cases hown
        · exact absurd (hsole hs' (Phase.owns_of_fills hfill) hq hown) hj
    · exact ⟨k, x, hother hk hx, hfill⟩
  case fresh =>
    intro j q hq hown hfree'
    have hfree : s.shared.taken = false := htaken hfree'
    rcases get_set hq with ⟨rfl, rfl⟩ | ⟨hj, hq⟩
    · cases hr : p.reads with
      | false =>
        rw [Phase.reads, Bool.or_eq_false_iff] at hr
        refine .inr ((ht.reader (by rw [Phase.reads, hr.1, hr.2]; rfl)).trans ?_)
        refine (hi.fresh _ p hp (ht.owns hown) hfree).resolve_left fun h => ?_
        rw [hr.2] at h
        cases h
      | true =>
        rw [Phase.reads, Bool.or_eq_true] at hr
        rcases hr with hfill | hframe
        · rw [(hi.fills _ p hp hfill).1] at hfree
          cases hfree
        · exact .inl ((ht.stays hframe).resolve_right (by rw [hown]; nofun))
    · rcases hi.fresh j q hq hown hfree with h | h
      · exact .inl h
      · exact .inr ((hreader hj hq hown (.inl hfree)).trans h)
  case result =>
    intro res hres
    rcases ht.sets with ⟨hsame, -⟩ | ⟨-, hold, res', hsome, hright⟩
    · obtain ⟨hs, hright⟩ := hi.result res (hsame ▸ hres)
      exact ⟨ht.taken hs, hright⟩
    · rw [show s'.buf = some res from hres] at hsome
      cases hsome
      exact ⟨ht.taken (hi.fills _ p hp hold).1, hright⟩
  case notified =>
    intro hn
    rcases ht.notified hn with hold | hsome
    · have hsome := hi.notified hold
      rw [show s'.buf = s.shared.buf from ht.buf hsome]
      exact hsome
    · exact hsome
  case sets =>
    rcases ht.sets with ⟨hsame, he⟩ | ⟨rfl, hold, res, hsome, -⟩
    · rw [List.count_cons_of_ne he, hi.sets, show s'.buf = s.shared.buf from hsame]
    · rw [List.count_cons_self, hi.sets, (hi.fills _ p hp hold).2, show s'.buf = some res from hsome]
      rfl
  case panics => exact fun h => (List.mem_cons.1 h).elim (fun he => ht.panic he.symm) hi.panics

theorem Inv.clone (hi : Inv r τ s) {i : Nat} (hp : s.clones[i]? = some .handle) :
    Inv r (.other :: τ) { s with clones := s.clones ++ [.handle] } where
  fits j q hq := by
    rcases get_push hq with hq | rfl
    · exact hi.fits j q hq
    · trivial
  one j k q q' hq hq' hfill hfill' := by
    rcases get_push hq with hq | rfl
    · rcases get_push hq' with hq' | rfl
      · exact hi.one j k q q' hq hq' hfill hfill'
      · cases hfill'
    · cases hfill
  alone j k q q' hq hq' hframe hown := by
    rcases get_push hq with hq | rfl
    · rcases get_push hq' with hq' | rfl
      · exact hi.alone j k q q' hq hq' hframe hown
      · have h := hi.alone j i q .handle hq hp hframe rfl
        subst h
        rw [hp] at hq
        cases hq
        cases hframe
    · cases hframe
  fills j q hq hfill := by
    rcases get_push hq with hq | rfl
    · exact hi.fills j q hq hfill
    · cases hfill
  filler hs hnone _ _ _ _ := by
    obtain ⟨k, x, hx, hfill⟩ := hi.filler hs hnone i .handle hp rfl
    exact ⟨k, x, get_pushed hx _, hfill⟩
  fresh j q hq hown hfree := by
    rcases get_push hq with hq | rfl
    · exact hi.fresh j q hq hown hfree
    · exact hi.fresh i .handle hp rfl hfree
  result := hi.result
  notified := hi.notified
  sets := (List.count_cons_of_ne (by decide)).trans hi.sets
  panics h := (List.mem_cons.1 h).elim nofun hi.panics

theorem Turn.drop {sole : Bool} {s : Shared E} {p : Phase E} (h : p.fills = true → sole = true) :
    Turn r sole s p s .dropped .other where
  fits := trivial
  taken := id
  takes := .inl
  buf := fun _ => rfl
  sets := .inl ⟨rfl, nofun⟩
  reader := fun _ => rfl
  owns := nofun
  framed := nofun
  stays := fun _ => .inr rfl
  fills := nofun
  keeps := fun hf => .inr (.inr ⟨h hf, rfl⟩)
  notified := .inl
  panic := nofun

theorem Inv.step {grow : Nat → Nat} {s' : Sys E} {a : Action} {e : Event} (hi : Inv r τ s) (ha : s.Allowed r a)
    (h : s.step grow a = some (s', e)) : Inv r (e :: τ) s' := by
  cases a with
  | clone i =>
    simp only [Sys.step] at h
    split at h <;> cases h
    rename_i hp
    exact hi.clone hp
  | poll i k =>
    simp only [Sys.step] at h
    split at h
    · cases h
    rename_i p hp
    obtain ⟨⟨s₁, p', e'⟩, hadvance, hr⟩ := Option.map_eq_some_iff.1 h
    cases hr
    refine hi.turn hp (advance_turn (hi.fits i p hp) (hi.fills i p hp) (hi.fresh i p hp) ?_ hi.result hi.notified hadvance)
    rintro rfl hs ht
    exact ha hp (beq_iff_eq.1 hs) ht
  | drop i =>
    simp only [Sys.step] at h
    split at h
    · cases h
    rename_i p hp
    split at h <;> cases h
    rename_i hawaits
    refine hi.turn hp (.drop fun hf => beq_iff_eq.2 (ha ?_))
    rw [hp, Option.any_some]
    cases p with
    | reading chunks bytes => rfl
    | finished res => cases hawaits
    | _ => cases hf

theorem Inv.good (hi : Inv r τ s) : Good r τ s where
  streams part hpart := by
    obtain ⟨i, hp⟩ := List.mem_iff_getElem?.1 hpart
    exact (hi.fits i _ hp).1
  once := by
    rw [hi.sets]
    split <;> omega
  unwraps := hi.panics
  served h := by
    obtain ⟨hwaiting, htaken, hnone, hnobody⟩ := h
    obtain ⟨i, hp⟩ := List.mem_iff_getElem?.1 hwaiting
    obtain ⟨j, q, hq, hfill⟩ := hi.filler htaken hnone i _ hp rfl
    rw [hnobody q (List.mem_of_getElem? hq)] at hfill
    cases hfill

end Invariant

/-! ## Every run -/

theorem shared_parts_stream {r : Reader E} {grow : Nat → Nat} {τ : List Event} {s : Sys E}
    (hr : (sharedReader r grow).Run (Sys.Allowed r) τ s) : Good r τ s := by
  have hi : Inv r τ s :=
    hr.induct (I := Inv r) (fun s (hs : s = _) => hs ▸ .start r) fun _ _ _ _ _ _ hi ha hs => hi.step ha hs
  exact hi.good

/-- Two clones of a reader with three bytes: the first reads it and the second waits. -/
def twoClones : List Action :=
  [.clone 0, .poll 0 0, .poll 0 0, .poll 0 0, .poll 1 0, .poll 1 0, .poll 1 0, .poll 0 2, .poll 0 1, .poll 0 0, .poll 0 0,
    .poll 0 0, .poll 1 0, .poll 1 0, .poll 1 0, .poll 0 0, .poll 0 0, .poll 0 0]

theorem shared_parts_stream_two_clones : ∃ τ s,
    (sharedReader (⟨[1, 2, 3], none⟩ : Reader Unit) (2 * ·)).Run (Sys.Allowed ⟨[1, 2, 3], none⟩) τ s ∧
      s.clones = [.part ⟨.iter 1, [.ok [1, 2, 3]], true⟩, .part ⟨.iter 1, [.ok [1, 2, 3]], false⟩] ∧
      Good ⟨[1, 2, 3], none⟩ τ s := by
  have h : ((sharedReader (⟨[1, 2, 3], none⟩ : Reader Unit) (2 * ·)).exec (Sys.Allowed ⟨[1, 2, 3], none⟩) []
      ⟨⟨⟨[1, 2, 3], none⟩, false, none, false⟩, [.handle]⟩ twoClones).map (·.2.clones) =
      some [.part ⟨.iter 1, [.ok [1, 2, 3]], true⟩, .part ⟨.iter 1, [.ok [1, 2, 3]], false⟩] := by decide
  obtain ⟨⟨τ, s⟩, he, hs⟩ := Option.map_eq_some_iff.mp h
  have hr := Core.Machine.run_of_exec (.start rfl) he
  exact ⟨τ, s, hr, hs, shared_parts_stream hr⟩

/-- The first clone has taken the reader and is dropped while the second waits. -/
def droppedWhileReading : List Action :=
  [.clone 0, .poll 0 0, .poll 0 0, .poll 0 0, .poll 1 0, .poll 1 0, .poll 1 0, .drop 0]

theorem reader_dropped : ¬ ∀ (r : Reader Unit) (grow : Nat → Nat) (τ : List Event) (s : Sys Unit),
    (sharedReader r grow).Run Core.Machine.anything τ s → Good r τ s := by
  intro hall
  have h : ((sharedReader (⟨[1, 2, 3], none⟩ : Reader Unit) (2 * ·)).exec Core.Machine.anything []
      ⟨⟨⟨[1, 2, 3], none⟩, false, none, false⟩, [.handle]⟩ droppedWhileReading).map (·.2) =
      some ⟨⟨⟨[1, 2, 3], none⟩, true, none, false⟩, [.dropped, .waiting]⟩ := by decide
  obtain ⟨⟨τ, s⟩, he, hs⟩ := Option.map_eq_some_iff.mp h
  refine (hall _ _ τ s (Core.Machine.run_of_exec (.start rfl) he)).served ?_
  rw [show s = _ from hs]
  exact ⟨by decide, rfl, rfl, by decide⟩

end Teloxide.Types.SharedReader
