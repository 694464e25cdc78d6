import Teloxide.Drafter.Spin

/-!
# The retry loop of a terminal command

What is seen of one `Commit` or `Finish` is the story of its attempts: it is
taken, and then each attempt begins and ends (`told`). `Tracked` says, for every
stage of the command, which story has been told so far and how it bears on the
locals of the loop.

* `terminal_delivered_once`: an attempt is made only while the story consists of
  attempts that the backend has asked to repeat later, whose delays are over, at
  most `terminal_retry_budget` of them, and before the deadline.
-/
namespace Teloxide.Drafter

variable {P : Type} {A : DraftAccumulator P} {B : DrafterBackend P}

namespace Sys

/-! ## What a step means for the terminal commands -/

/-- The calls whose command has not been received. -/
def pending (s : Sys A B) : List CallId := (s.unsent ++ s.queue).map Command.reply

/-- Events that no terminal command shows. -/
def Aside (evs : List (Event B)) : Prop := ∀ e ∈ evs, e.terminalCall = none

theorem Aside.nil : Aside ([] : List (Event B)) := fun _ he => absurd he List.not_mem_nil

theorem Aside.cons {e : Event B} {evs : List (Event B)} (he : e.terminalCall = none) (h : Aside evs) :
    Aside (e :: evs) :=
  List.forall_mem_cons.mpr ⟨he, h⟩

theorem Aside.append {evs evs' : List (Event B)} (h : Aside evs) (h' : Aside evs') : Aside (evs ++ evs') :=
  List.forall_mem_append.mpr ⟨h, h'⟩

theorem Aside.events (answers : FlushAnswers) : Aside (answers.events B) := by
  intro e he
  obtain ⟨x, -, rfl⟩ := List.mem_map.mp (List.mem_reverse.mp he)
  rfl

/-- The task is not processing a terminal command. -/
def Idles (s : Sys A B) : Prop := ∀ t stage, s.phase ≠ .terminal t stage

/-- The step from `s` to `s'`, as far as the terminal commands are concerned. -/
inductive TerminalStep (s s' : Sys A B) : Prop
  /-- the task stays where it is -/
  | beside (evs) : s'.pending.Sublist s.pending → s'.nextCall = s.nextCall → s'.phase = s.phase →
      s'.worker = s.worker → s.now ≤ s'.now → (s'.now = s.now ∨ s.phase.waits = true) →
      s'.log = evs ++ s.log → Aside evs → TerminalStep s s'
  /-- a call is made -/
  | called (command evs) : command.reply = s.nextCall → s'.unsent = s.unsent ++ [command] → s'.queue = s.queue →
      s'.nextCall = s.nextCall + 1 → s'.phase = s.phase → s'.worker = s.worker → s'.now = s.now →
      s'.log = evs ++ s.log → Aside evs → TerminalStep s s'
  /-- a command gets into the channel -/
  | sent {call command} : command ∈ s.unsent → command.reply = call →
      s' = { s with unsent := s.unsent.filter (·.reply ≠ call), queue := s.queue ++ [command] } → TerminalStep s s'
  /-- the task does something else -/
  | quiet (evs) : s'.pending.Sublist s.pending → s'.nextCall = s.nextCall → s'.worker.config = s.worker.config →
      s'.log = evs ++ s.log → Aside evs → s'.Idles → TerminalStep s s'
  | taken {command rest kind payload} (evs) : s.queue = command :: rest → s'.unsent = s.unsent → s'.queue = rest →
      s'.nextCall = s.nextCall → s'.worker.config = s.worker.config → s'.phase = .terminal
        ⟨kind, command.reply, payload, s'.now + s.worker.config.terminalTimeout, none, 0, none, false⟩ .acquiring →
      s'.log = .taken command.reply s'.now :: evs ++ s.log → Aside evs → TerminalStep s s'
  | moved {t stage b t' stage' b' evs} : s.phase = .terminal t stage → s.worker.backend = some b →
      Moves s t b stage t' stage' b' evs →
      s' = { s with worker := s.worker.withBackend b', phase := .terminal t' stage', log := evs ++ s.log } →
      TerminalStep s s'
  | cancelled {t stage} : s.phase = .terminal t stage → s'.pending.Sublist s.pending → s'.nextCall = s.nextCall →
      s'.worker.config = s.worker.config → s'.Idles →
      s'.log = .loopEnded s.source.gate :: .cancelled t.call :: s.log → TerminalStep s s'
  | answered {t outcome result} (evs evs') : s.phase = .terminal t (.concluding outcome) → Reports t outcome result →
      s'.pending.Sublist s.pending → s'.nextCall = s.nextCall → s'.worker.config = s.worker.config → s'.Idles →
      s'.log = evs ++ .answered t.call result :: (evs' ++ s.log) → Aside evs → Aside evs' → TerminalStep s s'

theorem pending_tail {s : Sys A B} {command : Command B.Final} {rest : List (Command B.Final)}
    (hq : s.queue = command :: rest) : ((s.unsent ++ rest).map Command.reply).Sublist s.pending := by
  simp only [pending, hq]
  exact ((List.sublist_cons_self _ _).append_left _).map _

/-- Some calls are given up. -/
theorem pending_filter (s : Sys A B) (p : Command B.Final → Bool) :
    ((s.unsent.filter p ++ s.queue).map Command.reply).Sublist s.pending :=
  (List.filter_sublist.append_right _).map _

theorem settlePreview_quiet {s v : Sys A B} (evs : List (Event B)) (hl : v.log = evs ++ s.log) (he : Aside evs)
    (hp : v.pending = s.pending) (hn : v.nextCall = s.nextCall) (hc : v.worker.config = s.worker.config)
    (r : DraftRevision) (how : PreviewEnd) : TerminalStep s (v.settlePreview r how) := by
  have hset := (v.worker.handlePreviewEnd_setup v.source r how v.now).config
  have haside : Aside (if how = .acked then [Event.covered (B := B) v.worker.segment r .acked] else []) := by
    split
    · exact .cons rfl .nil
    · exact .nil
  rw [settlePreview_eq]
  refine .quiet ((v.worker.handlePreviewEnd v.source r how v.now).2.2.events B ++
    ((if how = .acked then [Event.covered v.worker.segment r .acked] else []) ++ evs)) ?_ hn (hset.trans hc) ?_
    ((Aside.events _).append (haside.append he)) fun _ _ h => by cases h
  · exact hp ▸ List.Sublist.refl _
  · simp [hl]

theorem endPreview_quiet (s : Sys A B) (b b' : B.State) (snapshot : PreviewSnapshot P) (kept : Bool) (how : PreviewEnd) :
    TerminalStep s (s.endPreview b b' snapshot kept how) := by
  rcases s.endPreview_cases b b' snapshot kept how with h | h <;> rw [h]
  · exact .quiet [.previewEnded s.worker.segment b snapshot how] (List.Sublist.refl _) rfl rfl rfl (.cons rfl .nil)
      fun _ _ h => by cases h
  · exact settlePreview_quiet (s := s) (v := { s with
        worker := s.worker.withBackend b'
        log := .previewEnded s.worker.segment b snapshot how :: s.log }) [_] rfl (.cons rfl .nil) rfl rfl rfl _ _

theorem Step.terminal {s s' : Sys A B} {a : Action A B} (h : Step s a s')
    (hb : s.phase.alive = true → s.worker.backend.isSome = true) : TerminalStep s s' := by
  have same : s.pending.Sublist s.pending := List.Sublist.refl _
  cases h with
  | advance d hw => exact .beside [] same rfl rfl rfl (Nat.le_add_right _ _) (.inr hw) rfl .nil
  | push => exact .beside [_] same rfl rfl rfl (Nat.le_refl _) (.inl rfl) rfl (.cons rfl .nil)
  | unsendable => exact .beside [] (pending_filter _ _) rfl rfl rfl (Nat.le_refl _) (.inl rfl) rfl .nil
  | forget => exact .beside [] (pending_filter _ _) rfl rfl rfl (Nat.le_refl _) (.inl rfl) rfl .nil
  | dropOwner => exact .beside [] same rfl rfl rfl (Nat.le_refl _) (.inl rfl) rfl .nil
  | dropSenders => exact .beside [] same rfl rfl rfl (Nat.le_refl _) (.inl rfl) rfl .nil
  | flush => exact .called _ [_] rfl rfl rfl rfl rfl rfl rfl rfl (.cons rfl .nil)
  | commit payload => exact .called (.commit payload s.nextCall) [] rfl rfl rfl rfl rfl rfl rfl rfl .nil
  | close command hc =>
    refine .called command [_] ?_ rfl rfl rfl rfl rfl rfl rfl (.cons rfl .nil)
    rcases hc with ⟨-, rfl⟩ | ⟨payload, -, rfl⟩ <;> rfl
  | send halive hmem hr => exact .sent hmem hr rfl
  | @taken command rest payload kind reply b ha hq hk =>
    have hreply : command.reply = reply := by
      rcases hk with ⟨-, rfl⟩ | ⟨-, rfl⟩ <;> rfl
    exact .taken _ hq rfl rfl rfl rfl (by rw [hreply]) (by rw [hreply]) (.events _)
  | inTerminal t' stage' b' evs hp hs hm => exact .moved hp hs hm rfl
  | cancelled hp => exact .cancelled hp (by simp [pending]) rfl rfl (fun _ _ h => by cases h) rfl
  | reopened b hp =>
    exact .answered [] [_] hp (.success _) same rfl rfl (fun _ _ h => by cases h) rfl .nil (.cons rfl .nil)
  | keptGoing b hp hk hi hd =>
    exact .answered [] [] hp (.backend hd) same rfl rfl (fun _ _ h => by cases h) rfl .nil .nil
  | gaveUp b hp hk hr =>
    exact .answered [_] [] hp hr (by simp [pending]) rfl rfl (fun _ _ h => by cases h) rfl
      (.cons rfl .nil) .nil
  | finished hp hk hr =>
    exact .answered [_] [] hp hr (by simp [pending]) rfl rfl (fun _ _ h => by cases h) rfl
      (.cons rfl .nil) .nil
  | orphaned source e ha hq hn =>
    have := hb (Phase.alive_of_receives ha)
    rw [hn] at this
    cases this
  | kill =>
    exact .quiet [] (by simp [pending]) rfl rfl rfl .nil fun _ _ h => by cases h
  | channelClosed =>
    exact .quiet [_] (by simp [pending]) rfl rfl rfl (.cons rfl .nil) fun _ _ h => by cases h
  | aborted =>
    exact .quiet [_, _] (by simp [pending]) rfl rfl rfl (.cons rfl (.cons rfl .nil))
      fun _ _ h => by cases h
  | idle hp hr =>
    rcases Worker.runDuePreview_idle hr with ⟨rfl, -⟩ | ⟨rfl, -⟩ <;>
      exact .quiet _ same rfl rfl rfl (.events _) fun _ _ h => by cases h
  | skipped hp hr =>
    obtain ⟨_, _, _, -, -, -, -, -, -, -, hw⟩ := Worker.runDuePreview_skipped hr
    cases hw
    exact .quiet _ same rfl rfl (List.append_assoc _ [_] _).symm ((Aside.events _).append (.cons rfl .nil))
      fun _ _ h => by cases h
  | refused => exact .quiet _ same rfl rfl rfl (.events _) fun _ _ h => by cases h
  | started => exact .quiet [_] same rfl rfl rfl (.cons rfl .nil) fun _ _ h => by cases h
  | discardedNoPreview =>
    exact .quiet _ same rfl rfl (List.append_assoc _ [_] _).symm ((Aside.events _).append (.cons rfl .nil))
      fun _ _ h => by cases h
  | discardedNoop =>
    exact .quiet _ same rfl rfl (List.append_assoc _ [_] _).symm ((Aside.events _).append (.cons rfl .nil))
      fun _ _ h => by cases h
  | updated => exact endPreview_quiet _ _ _ _ _ _
  | timedOut => exact endPreview_quiet _ _ _ _ _ _
  | settled => exact settlePreview_quiet [] rfl .nil rfl rfl rfl _ _
  | flushAnswered ha hq => exact .quiet [_] (pending_tail hq) rfl rfl rfl (.cons rfl .nil) fun _ _ h => by cases h
  | flushRegistered ha hq => exact .quiet [] (pending_tail hq) rfl rfl rfl .nil fun _ _ h => by cases h
  | abortTaken until' phase backend ha hq hs hphase =>
    refine .quiet _ (pending_tail hq) rfl rfl rfl (.events _) fun _ _ h => ?_
    rcases hphase with rfl | rfl <;> cases h
  | _ => exact .quiet [] same rfl rfl rfl .nil fun _ _ h => by cases h

/-! ## Calls -/

/-- The command of the call has been received, or was given up. -/
def Spent (s : Sys A B) (call : CallId) : Prop := call < s.nextCall ∧ call ∉ s.pending

theorem Spent.anti {s s' : Sys A B} {call : CallId} (h : s.Spent call) (hp : s'.pending.Sublist s.pending)
    (hn : s'.nextCall = s.nextCall) : s'.Spent call :=
  ⟨by rw [hn]; exact h.1, fun hin => h.2 (hp.subset hin)⟩

theorem Aside.spent {evs : List (Event B)} (h : Aside evs) (s : Sys A B) :
    ∀ e ∈ evs, ∀ call, e.terminalCall = some call → s.Spent call := by
  intro e he call hc
  rw [h e he] at hc
  cases hc

/-- A call has one command, and nothing is seen of the command before it is received. -/
structure CallsInv (s : Sys A B) : Prop where
  nodup : s.pending.Nodup
  fresh : ∀ call ∈ s.pending, call < s.nextCall
  spent : ∀ e ∈ s.log, ∀ call, e.terminalCall = some call → s.Spent call
  current : ∀ t stage, s.phase = .terminal t stage → s.Spent t.call

/-- No call is made. -/
theorem CallsInv.received {s s' : Sys A B} (hi : s.CallsInv) (hp : s'.pending.Sublist s.pending)
    (hn : s'.nextCall = s.nextCall) (evs : List (Event B)) (hl : s'.log = evs ++ s.log)
    (he : ∀ e ∈ evs, ∀ call, e.terminalCall = some call → s'.Spent call)
    (hc : ∀ t stage, s'.phase = .terminal t stage → s'.Spent t.call) : s'.CallsInv := by
  refine ⟨hi.nodup.sublist hp, fun call hmem => ?_, fun e hmem call h => ?_, hc⟩
  · rw [hn]
    exact hi.fresh call (hp.subset hmem)
  · rw [hl] at hmem
    rcases List.mem_append.mp hmem with hmem | hmem
    · exact he e hmem call h
    · exact (hi.spent e hmem call h).anti hp hn

/-- A call is made. -/
theorem CallsInv.called {s s' : Sys A B} (hi : s.CallsInv) (command : Command B.Final)
    (hr : command.reply = s.nextCall) (hu : s'.unsent = s.unsent ++ [command]) (hq : s'.queue = s.queue)
    (hn : s'.nextCall = s.nextCall + 1) (evs : List (Event B)) (hl : s'.log = evs ++ s.log)
    (he : ∀ e ∈ evs, e.terminalCall = none) (hph : s'.phase = s.phase) : s'.CallsInv := by
  have hmem : ∀ call, call ∈ s'.pending ↔ call ∈ s.pending ∨ call = s.nextCall := by
    intro call
    simp only [pending, hu, hq, List.map_append, List.mem_append, List.map_cons, List.map_nil, List.mem_singleton, hr]
    exact or_right_comm
  have spent : ∀ call, s.Spent call → s'.Spent call := by
    rintro call ⟨hlt, hnot⟩
    refine ⟨by rw [hn]; exact Nat.lt_succ_of_lt hlt, fun hin => ?_⟩
    rcases (hmem call).mp hin with h | h
    · exact hnot h
    · exact Nat.lt_irrefl _ (h ▸ hlt)
  have hfresh : s.nextCall ∉ s.pending := fun h => Nat.lt_irrefl _ (hi.fresh _ h)
  refine ⟨?_, fun call h => ?_, fun e hin call h => ?_, fun t stage h => ?_⟩
  · have hperm : s'.pending.Perm (s.nextCall :: s.pending) := by
      simp only [pending, hu, hq, List.map_append, List.map_cons, List.map_nil, hr, List.append_assoc]
      exact List.perm_middle
    exact hperm.nodup_iff.mpr (List.nodup_cons.mpr ⟨hfresh, hi.nodup⟩)
  · rw [hn]
    rcases (hmem call).mp h with h | h
    · exact Nat.lt_succ_of_lt (hi.fresh call h)
    · exact h ▸ Nat.lt_succ_self _
  · rw [hl] at hin
    rcases List.mem_append.mp hin with hin | hin
    · rw [he e hin] at h
      cases h
    · exact spent call (hi.spent e hin call h)
  · rw [hph] at h
    exact spent t.call (hi.current t stage h)

/-- A command gets into the channel. -/
theorem CallsInv.sent {s s' : Sys A B} (hi : s.CallsInv) {call : CallId} {command : Command B.Final}
    (hmem : command ∈ s.unsent) (hr : command.reply = call)
    (hu : s'.unsent = s.unsent.filter (·.reply ≠ call)) (hq : s'.queue = s.queue ++ [command])
    (hn : s'.nextCall = s.nextCall) (hl : s'.log = s.log) (hph : s'.phase = s.phase) : s'.CallsInv := by
  have hsub : ∀ c, c ∈ s'.pending → c ∈ s.pending := by
    intro c hin
    simp only [pending, hu, hq, List.map_append, List.mem_append, List.mem_map, List.mem_filter, List.mem_singleton]
      at hin ⊢
    rcases hin with ⟨x, ⟨hx, -⟩, rfl⟩ | ⟨x, hx, rfl⟩ | ⟨x, rfl, rfl⟩
    · exact .inl ⟨x, hx, rfl⟩
    · exact .inr ⟨x, hx, rfl⟩
    · exact .inl ⟨x, hmem, rfl⟩
  have spent : ∀ c, s.Spent c → s'.Spent c := fun c h => ⟨by rw [hn]; exact h.1, fun hin => h.2 (hsub c hin)⟩
  refine ⟨?_, fun c h => ?_, fun e hin c h => ?_, fun t stage h => ?_⟩
  · have hnodup := hi.nodup
    simp only [pending, hu, hq, List.map_append, List.map_cons, List.map_nil] at hnodup ⊢
    obtain ⟨hunsent, hqueue, hdisj⟩ := List.nodup_append.mp hnodup
    refine List.nodup_append.mpr ⟨hunsent.sublist (List.filter_sublist.map _), ?_, ?_⟩
    · refine List.nodup_append.mpr ⟨hqueue, by simp, fun a ha b hb => ?_⟩
      rw [List.mem_singleton.mp hb]
      exact (hdisj _ (List.mem_map_of_mem hmem) a ha).symm
    · intro a ha b hb
      obtain ⟨x, hx, rfl⟩ := List.mem_map.mp ha
      obtain ⟨hx, hne⟩ := List.mem_filter.mp hx
      rcases List.mem_append.mp hb with hb | hb
      · exact hdisj _ (List.mem_map_of_mem hx) b hb
      · rw [List.mem_singleton.mp hb, hr]
        simpa using hne
  · rw [hn]
    exact hi.fresh c (hsub c h)
  · rw [hl] at hin
    exact spent c (hi.spent e hin c h)
  · rw [hph] at h
    exact spent t.call (hi.current t stage h)

theorem TerminalStep.calls {s s' : Sys A B} (h : TerminalStep s s') (hi : s.CallsInv) : s'.CallsInv := by
  cases h with
  | beside evs hp hn hph _ _ _ hl he =>
    exact hi.received hp hn evs hl (he.spent _) fun t stage h => (hi.current t stage (hph ▸ h)).anti hp hn
  | called command evs hr hu hq hn hph _ _ hl he => exact hi.called command hr hu hq hn evs hl he hph
  | sent hmem hr hs => exact hi.sent hmem hr (by rw [hs]) (by rw [hs]) (by rw [hs]) (by rw [hs]) (by rw [hs])
  | quiet evs hp hn _ hl he hidle =>
    exact hi.received hp hn evs hl (he.spent _) fun t stage h => absurd h (hidle t stage)
  | @taken command rest kind payload evs hq hu hq' hn _ hph hl he =>
    have hsub : s'.pending.Sublist s.pending := by
      rw [pending, hu, hq']
      exact pending_tail hq
    have hspent : s'.Spent command.reply := by
      refine ⟨by rw [hn]; exact hi.fresh _ (by simp [pending, hq]), fun hin => ?_⟩
      have hnodup := hi.nodup
      simp only [pending, hq, hu, hq', List.map_append, List.map_cons] at hnodup hin
      exact (List.nodup_cons.mp (List.perm_middle.nodup_iff.mp hnodup)).1 hin
    refine hi.received hsub hn (.taken command.reply s'.now :: evs) hl ?_ fun t stage h => ?_
    · intro e hmem call hcall
      rcases List.mem_cons.mp hmem with rfl | hmem
      · cases hcall
        exact hspent
      · exact he.spent _ e hmem call hcall
    · rw [hph] at h
      cases h
      exact hspent
  | moved hp hb hm hs =>
    subst hs
    obtain ⟨hcall, -, hevs⟩ := hm.same
    have hcur := hi.current _ _ hp
    refine hi.received (List.Sublist.refl _) rfl _ rfl (fun e hmem call h => ?_) fun t stage h => ?_
    · rw [hevs e hmem] at h
      cases h
      exact hcur
    · cases h
      rw [hcall]
      exact hcur
  | @cancelled t stage hp hsub hn _ hidle hl =>
    refine hi.received hsub hn [_, _] hl (fun e hmem call h => ?_) fun t stage h => absurd h (hidle t stage)
    rcases List.mem_cons.mp hmem with rfl | hmem
    · cases h
    · rw [List.mem_singleton.mp hmem] at h
      cases h
      exact (hi.current t stage hp).anti hsub hn
  | @answered t outcome result evs evs' hp _ hsub hn _ hidle hl he he' =>
    refine hi.received hsub hn (evs ++ .answered t.call result :: evs') (by simp [hl]) (fun e hmem call h => ?_)
      fun t stage h => absurd h (hidle t stage)
    rcases List.mem_append.mp hmem with hmem | hmem
    · exact he.spent _ e hmem call h
    · rcases List.mem_cons.mp hmem with rfl | hmem
      · cases h
        exact (hi.current t _ hp).anti hsub hn
      · exact he'.spent _ e hmem call h

end Sys

/-! ## The story of a command -/

/-- What has been seen of a terminal command, newest first. -/
def history (call : CallId) (log : List (Event B)) : List (Event B) :=
  log.filter fun e => e.terminalCall = some call

theorem history_append (call : CallId) (evs log : List (Event B)) :
    history call (evs ++ log) = history call evs ++ history call log :=
  List.filter_append ..

/-- Everything that is seen belongs to the command. -/
theorem history_own {call : CallId} {evs : List (Event B)} (h : ∀ e ∈ evs, e.terminalCall = some call) :
    history call evs = evs :=
  List.filter_eq_self.mpr fun e he => by simp [h e he]

theorem Sys.Aside.history {evs : List (Event B)} (h : Sys.Aside evs) (call : CallId) : history call evs = [] :=
  List.filter_eq_nil_iff.mpr fun e he => by simp [h e he]

/-- A backend call that has ended. -/
structure Attempt where
  startedAt : Nat
  endedAt : Nat
  how : CallEnd

def CallEnd.disposition : CallEnd → Option DrafterErrorDisposition
  | .error d => some d
  | _ => none

/-- When the backend wants the attempt to be repeated, if it was classified `RetryAfter`. -/
def Attempt.readyAt (attempt : Attempt) : Option Nat :=
  match attempt.how with
  | .error ⟨.retryAfter delay _, _⟩ => some (attempt.endedAt + delay)
  | _ => none

theorem Attempt.readyAt_of {attempt : Attempt} {d : DrafterErrorDisposition} {delay : Nat}
    {scope : DrafterRateLimitScope} (h : attempt.how = .error d) (hc : d.cls = .retryAfter delay scope) :
    attempt.readyAt = some (attempt.endedAt + delay) := by
  obtain ⟨cls, delivery⟩ := d
  obtain rfl : cls = .retryAfter delay scope := hc
  unfold readyAt
  rw [h]

/-- The story of a command that was taken at the instant `taken`, and of its
attempts, newest first. -/
def told (call : CallId) (taken : Nat) : List Attempt → List (Event B)
  | [] => [.taken call taken]
  | attempt :: rest =>
    .attemptEnded call attempt.how attempt.endedAt :: .attempt call attempt.startedAt :: told call taken rest

/-- The attempts are repeatable, and their delays are over. -/
def ReadyBy (now : Nat) (attempts : List Attempt) : Prop :=
  ∀ attempt ∈ attempts, ∃ ready, attempt.readyAt = some ready ∧ ready ≤ now

def Repeatable (attempts : List Attempt) : Prop := ∀ attempt ∈ attempts, attempt.readyAt.isSome = true

theorem ReadyBy.repeatable {now : Nat} {attempts : List Attempt} (h : ReadyBy now attempts) : Repeatable attempts := by
  intro attempt hmem
  obtain ⟨ready, hr, -⟩ := h attempt hmem
  rw [hr]
  rfl

theorem ReadyBy.mono {now later : Nat} {attempts : List Attempt} (h : ReadyBy now attempts) (hle : now ≤ later) :
    ReadyBy later attempts := by
  intro attempt hmem
  obtain ⟨ready, hr, hready⟩ := h attempt hmem
  exact ⟨ready, hr, Nat.le_trans hready hle⟩

/-- The disposition of the newest attempt. -/
def lastDisposition (attempts : List Attempt) : Option DrafterErrorDisposition :=
  attempts.head?.bind (·.how.disposition)

/-- The outcome is the one that the story ends with. -/
inductive Explains (d : Option DrafterErrorDisposition) :
    List Attempt → TerminalOutcome B.Delivered B.Error → Prop
  | success {attempt rest} (output) : attempt.how = .ok → Repeatable rest →
      Explains d (attempt :: rest) (.success output)
  | backend {attempt rest disposition} (error) : attempt.how = .error disposition → d = some disposition → Repeatable rest →
      Explains d (attempt :: rest) (.backend error)
  | rateLimiter {attempts} (error) : Repeatable attempts → Explains d attempts (.rateLimiter error)
  | requestTimeout {attempt rest} : attempt.how = .requestTimeout → Repeatable rest →
      Explains d (attempt :: rest) (.synthetic .requestTimeout)
  | deadline {attempt rest} : attempt.how = .deadline → Repeatable rest →
      Explains d (attempt :: rest) (.synthetic (.deadline .unknown))
  | overdue {attempts} : Repeatable attempts → Explains d attempts
      (.synthetic (.deadline (((lastDisposition attempts).map (·.delivery)).getD .notAttempted)))

/-- What the locals of the loop say about the attempts. -/
structure Terminal.Recalls (t : Terminal B) (attempts : List Attempt) : Prop where
  count : attempts.length = t.retryCount
  last : lastDisposition attempts = t.failureDisposition

/-- The story so far of the command `t`, which has come to `stage`. -/
def Sys.TrackedAt (s : Sys A B) (t : Terminal B) (taken : Nat) (attempts : List Attempt) : TerminalStage B → Prop
  | .retrying =>
    history t.call s.log = told t.call taken attempts ∧ t.Recalls attempts ∧
      ReadyBy (max s.now (t.retryNotBefore.getD 0)) attempts
  | .acquiring =>
    history t.call s.log = told t.call taken attempts ∧ t.Recalls attempts ∧ ReadyBy s.now attempts
  | .calling _ _ =>
    history t.call s.log = told t.call taken attempts ∧ t.Recalls attempts ∧ ReadyBy s.now attempts ∧
      s.now < t.operationDeadline
  | .inCall _ _ _ =>
    (∃ startedAt, history t.call s.log = .attempt t.call startedAt :: told t.call taken attempts) ∧
      t.Recalls attempts ∧ ReadyBy s.now attempts
  | .completing attempt =>
    (∃ startedAt endedAt b, endedAt ≤ s.now ∧ s.worker.backend = some b ∧ history t.call s.log =
      told t.call taken (⟨startedAt, endedAt, callEnd t.kind b attempt⟩ :: attempts)) ∧
      t.Recalls attempts ∧ ReadyBy s.now attempts
  | .cleanupAcquire _ output | .cleaningUp _ output _ =>
    history t.call s.log = told t.call taken attempts ∧ Explains t.failureDisposition attempts
      (TerminalOutcome.success output : TerminalOutcome B.Delivered B.Error)
  | .abortAcquire _ outcome =>
    history t.call s.log = told t.call taken attempts ∧ Explains t.failureDisposition attempts outcome ∧
      Sys.shouldCleanup t outcome = true
  | .aborting _ outcome =>
    history t.call s.log = .cleanup t.call :: told t.call taken attempts ∧
      Explains t.failureDisposition attempts outcome ∧ Sys.shouldCleanup t outcome = true
  | .concluding outcome =>
    (history t.call s.log = told t.call taken attempts ∨
      history t.call s.log = .cleanup t.call :: told t.call taken attempts ∧ Sys.shouldCleanup t outcome = true) ∧
      Explains t.failureDisposition attempts outcome

/-- Some story has been told of it, within the budget. -/
def Sys.Tracked (s : Sys A B) (t : Terminal B) (stage : TerminalStage B) : Prop :=
  ∃ taken attempts, t.operationDeadline = taken + s.worker.config.terminalTimeout ∧
    t.retryCount ≤ s.worker.config.terminalRetryBudget ∧ s.TrackedAt t taken attempts stage

/-- What an event of a command says about the events before it. -/
def Warranted (config : DraftConfig) (e : Event B) (older : List (Event B)) : Prop :=
  match e with
  | .attempt call startedAt =>
    ∃ taken attempts, history call older = told call taken attempts ∧
      attempts.length ≤ config.terminalRetryBudget ∧ ReadyBy startedAt attempts ∧
      startedAt < taken + config.terminalTimeout
  | .cleanup call =>
    ∃ taken attempts t outcome, history call older = told call taken attempts ∧
      Explains (B := B) (Terminal.failureDisposition t) attempts outcome ∧ Sys.shouldCleanup t outcome = true
  | .answered call result =>
    ∃ taken attempts t outcome, (history call older = told call taken attempts ∨
        history call older = .cleanup call :: told call taken attempts ∧ Sys.shouldCleanup t outcome = true) ∧
      Explains (Terminal.failureDisposition t) attempts outcome ∧ Sys.Reports t outcome result
  | _ => True

def AllWarranted (config : DraftConfig) (log : List (Event B)) : Prop :=
  ∀ e older, (e :: older) <:+ log → Warranted config e older

theorem AllWarranted.nil (config : DraftConfig) : AllWarranted config ([] : List (Event B)) := by
  intro e older h
  cases List.suffix_nil.mp h

theorem AllWarranted.cons {config : DraftConfig} {e : Event B} {log : List (Event B)} (he : Warranted config e log)
    (h : AllWarranted config log) : AllWarranted config (e :: log) := by
  intro e' older hs
  rcases List.suffix_cons_iff.mp hs with hs | hs
  · cases hs
    exact he
  · exact h e' older hs

theorem AllWarranted.aside {config : DraftConfig} {evs log : List (Event B)} (he : Sys.Aside evs)
    (h : AllWarranted config log) : AllWarranted config (evs ++ log) := by
  induction evs with
  | nil => exact h
  | cons e evs ih =>
    obtain ⟨hnone, hrest⟩ := List.forall_mem_cons.mp he
    refine (ih hrest).cons ?_
    cases e <;> first | exact True.intro | cases hnone

namespace Sys

/-! ## Inside a command -/

section Inside

variable {s' : Sys A B} {t t' : Terminal B} {stage : TerminalStage B} {evs log : List (Event B)} {taken : Nat}
  {attempts : List Attempt} {config : DraftConfig}

theorem Leaves.trackedAt {outcome : TerminalOutcome B.Delivered B.Error} (h : Leaves t outcome stage evs)
    (hl : s'.log = evs ++ log) (hh : history t.call log = told t.call taken attempts)
    (he : Explains t.failureDisposition attempts outcome) : s'.TrackedAt t taken attempts stage := by
  have hs : history t.call s'.log = evs ++ told t.call taken attempts := by
    rw [hl, history_append, hh, history_own h.events]
  cases h with
  | concluding => exact ⟨.inl hs, he⟩
  | asking _ hc => exact ⟨hs, he, hc⟩
  | aborting _ hc => exact ⟨hs, he, hc⟩

theorem Leaves.warranted {outcome : TerminalOutcome B.Delivered B.Error} (h : Leaves t outcome stage evs)
    (hw : AllWarranted config log) (hh : history t.call log = told t.call taken attempts)
    (he : Explains t.failureDisposition attempts outcome) : AllWarranted config (evs ++ log) := by
  cases h with
  | concluding | asking => exact hw
  | aborting _ hc => exact hw.cons ⟨taken, attempts, t, outcome, hh, he, hc⟩

/-- The end of an attempt goes into the story, and the loop goes on with it. -/
theorem Settles.tracked (s' : Sys A B) {now budget : Nat} {b : B.State} {attempt : TerminalCall B} {ended : Attempt}
    (h : Settles now budget b t attempt t' stage evs) (hl : s'.log = evs ++ log) (hn : s'.now = now)
    (hw : AllWarranted config log) (hh : history t.call log = told t.call taken (ended :: attempts))
    (hhow : ended.how = callEnd t.kind b attempt) (hended : ended.endedAt ≤ now) (hr : t.Recalls attempts)
    (hready : ReadyBy now attempts) (hbudget : t.retryCount ≤ budget) :
    t'.operationDeadline = t.operationDeadline ∧ t'.retryCount ≤ budget ∧
      s'.TrackedAt t' taken (ended :: attempts) stage ∧ AllWarranted config s'.log := by
  have hrep := hready.repeatable
  rw [hl]
  cases h with
  | @cleansUp output _ until' scheduled ha hstage =>
    subst ha
    have he := Explains.success (B := B) (d := t.failureDisposition) output hhow hrep
    refine ⟨rfl, hbudget, ?_, hw⟩
    have hs : history t.call s'.log = told t.call taken (ended :: attempts) := by rw [hl]; exact hh
    rcases hstage with rfl | rfl <;> exact ⟨hs, he⟩
  | @succeeds output _ _ ha hleave =>
    subst ha
    have he := Explains.success (B := B) (d := t.failureDisposition) output hhow hrep
    exact ⟨rfl, hbudget, hleave.trackedAt hl hh he, hleave.warranted hw hh he⟩
  | timedOut ha hleave =>
    have he := Explains.requestTimeout (B := B) (d := some ⟨.ambiguous, .unknown⟩) (hhow.trans ha) hrep
    exact ⟨rfl, hbudget, hleave.trackedAt hl hh he, hleave.warranted hw hh he⟩
  | overdue ha hleave =>
    have he := Explains.deadline (B := B) (d := some ⟨.ambiguous, .unknown⟩) (hhow.trans ha) hrep
    exact ⟨rfl, hbudget, hleave.trackedAt hl hh he, hleave.warranted hw hh he⟩
  | @fails error d _ _ _ ha _ _ hleave =>
    have he : Explains (some d) (ended :: attempts) (.backend error) := .backend _ (hhow.trans ha) rfl hrep
    exact ⟨rfl, hbudget, hleave.trackedAt hl hh he, hleave.warranted hw hh he⟩
  | @retries d delay scope _ ha hc hlt hstage =>
    have hhow := hhow.trans ha
    have hat := Attempt.readyAt_of hhow hc
    have hs : history t.call s'.log = told t.call taken (ended :: attempts) := by rw [hl]; exact hh
    have hrecalls : Terminal.Recalls { t with
        failureDisposition := some d
        retryCount := t.retryCount + 1
        retryNotBefore := some (now + delay) } (ended :: attempts) := by
      refine ⟨congrArg (· + 1) hr.count, ?_⟩
      simp [lastDisposition, hhow, CallEnd.disposition]
    have hby : ∀ by', now ≤ by' → now + delay ≤ by' → ReadyBy by' (ended :: attempts) := by
      intro by' hle hdelay
      refine List.forall_mem_cons.mpr ⟨⟨_, hat, by omega⟩, hready.mono hle⟩
    refine ⟨rfl, hlt, ?_, hw⟩
    rcases hstage with rfl | ⟨rfl, hzero⟩
    · exact ⟨hs, hrecalls, hby _ (by rw [hn]; omega) (by rw [hn, Option.getD_some]; omega)⟩
    · exact ⟨hs, hrecalls, hby _ (Nat.le_of_eq hn.symm) (by rw [hn]; exact hzero)⟩

/-- One step inside a command goes on with its story. -/
theorem Moves.tracked {s : Sys A B} {b b' : B.State} {stage' : TerminalStage B}
    (h : Moves s t b stage t' stage' b' evs) (hb : s.worker.backend = some b) (ht : s.Tracked t stage)
    (hw : AllWarranted s.worker.config s.log)
    (hs : s' = { s with worker := s.worker.withBackend b', phase := .terminal t' stage', log := evs ++ s.log }) :
    s'.Tracked t' stage' ∧ AllWarranted s'.worker.config s'.log := by
  obtain ⟨taken, attempts, hdeadline, hbudget, hat⟩ := ht
  -- the loop is left
  have leave : ∀ (t₁ : Terminal B) {outcome}, t₁.call = t.call → t₁.retryCount = t.retryCount →
      t₁.operationDeadline = t.operationDeadline → ∀ {attempts'}, history t.call s.log = told t.call taken attempts' →
      Explains t₁.failureDisposition attempts' outcome → Leaves t₁ outcome stage' evs → t' = t₁ →
      s'.Tracked t' stage' ∧ AllWarranted s'.worker.config s'.log := by
    rintro t₁ outcome hcall hcount hdl attempts' hh he hleave rfl
    rw [← hcall] at hh
    refine ⟨⟨taken, attempts', ?_, ?_, hleave.trackedAt (by rw [hs]) hh he⟩, ?_⟩
    · rw [hdl, hdeadline, hs]
      rfl
    · rw [hcount, hs]
      exact hbudget
    · rw [hs]
      exact hleave.warranted hw hh he
  -- the stage is another, and nothing is seen
  have stay : t' = t → evs = [] → s'.TrackedAt t taken attempts stage' →
      s'.Tracked t' stage' ∧ AllWarranted s'.worker.config s'.log := by
    rintro rfl rfl h
    refine ⟨⟨taken, attempts, ?_, ?_, h⟩, ?_⟩
    · rw [hdeadline, hs]
      rfl
    · rw [hs]
      exact hbudget
    · rw [hs]
      exact hw
  -- nothing of the command has been seen since
  have quiet : evs = [] → history t.call s'.log = history t.call s.log := by
    rintro rfl
    rw [hs]
    rfl
  cases h with
  | resumes hready =>
    obtain ⟨hh, hr, hby⟩ := hat
    have hle : t.retryNotBefore.getD 0 ≤ s.now := by
      cases hn : t.retryNotBefore with
      | none => exact Nat.zero_le _
      | some ready => simpa [hn] using hready
    refine stay rfl rfl ⟨(quiet rfl).trans hh, hr, ?_⟩
    rw [hs]
    exact hby.mono (by simp [hle])
  | @overdue _ delivery _ _ _ hstage hdue hd hleave =>
    obtain ⟨hh, hr, hrep⟩ : history t.call s.log = told t.call taken attempts ∧ t.Recalls attempts ∧
        Repeatable attempts := by
      rcases hstage with rfl | rfl <;> exact ⟨hat.1, hat.2.1, hat.2.2.repeatable⟩
    have he := Explains.overdue (B := B) (d := some ⟨.ambiguous, delivery⟩) hrep
    rw [hr.last, ← hd] at he
    exact leave { t with failureDisposition := some ⟨.ambiguous, delivery⟩ } rfl rfl rfl hh he hleave rfl
  | granted hlt =>
    obtain ⟨hh, hr, hby⟩ := hat
    subst hs
    exact stay rfl rfl ⟨(quiet rfl).trans hh, hr, hby, hlt⟩
  | refused hleave =>
    obtain ⟨hh, hr, hby⟩ := hat
    exact leave t rfl rfl rfl hh (.rateLimiter _ hby.repeatable) hleave rfl
  | calls hopen =>
    obtain ⟨hh, hr, hby, hlt⟩ := hat
    subst hs
    refine ⟨⟨taken, attempts, hdeadline, hbudget, ⟨s.now, ?_⟩, hr, hby⟩, ?_⟩
    · rw [history_append, hh, history_own (by simp [Event.terminalCall])]
      rfl
    · refine hw.cons ⟨taken, attempts, hh, ?_, hby, ?_⟩
      · rw [hr.count]
        exact hbudget
      · exact hdeadline ▸ hlt
  | @keeps _ _ _ attempt _ =>
    obtain ⟨⟨startedAt, hh⟩, hr, hby⟩ := hat
    subst hs
    refine ⟨⟨taken, attempts, hdeadline, hbudget, ⟨startedAt, s.now, b', Nat.le_refl _, rfl, ?_⟩, hr, hby⟩,
      hw.cons True.intro⟩
    rw [history_append, hh, history_own (by simp [Event.terminalCall])]
    rfl
  | @ends _ _ _ attempt b₁ _ _ _ evs₁ hset =>
    obtain ⟨⟨startedAt, hh⟩, hr, hby⟩ := hat
    have hh' : history t.call (.attemptEnded t.call (callEnd t.kind b₁ attempt) s.now :: s.log) =
        told t.call taken (⟨startedAt, s.now, callEnd t.kind b₁ attempt⟩ :: attempts) := by
      rw [show Event.attemptEnded t.call (callEnd t.kind b₁ attempt) s.now :: s.log =
        [.attemptEnded t.call (callEnd t.kind b₁ attempt) s.now] ++ s.log from rfl, history_append, hh,
        history_own (by simp [Event.terminalCall])]
      rfl
    have hlog : s'.log = evs₁ ++ (.attemptEnded t.call (callEnd t.kind b₁ attempt) s.now :: s.log) := by
      rw [hs]
      exact List.append_assoc _ [_] _
    obtain ⟨hdl, hcount, hat', hw'⟩ := hset.tracked s' hlog (by rw [hs]) (hw.cons True.intro) hh' rfl
      (Nat.le_refl _) hr hby hbudget
    have hc : s'.worker.config = s.worker.config := by
      rw [hs]
      rfl
    rw [hc]
    exact ⟨⟨taken, _, by rw [hdl, hc, hdeadline], by rw [hc]; exact hcount, hat'⟩, hw'⟩
  | completes hset =>
    obtain ⟨⟨startedAt, endedAt, b₁, hended, hb₁, hh⟩, hr, hby⟩ := hat
    obtain rfl : b₁ = b := Option.some.inj (hb₁.symm.trans hb)
    obtain ⟨hdl, hcount, hat', hw'⟩ := hset.tracked s' (by rw [hs]) (by rw [hs]) hw hh rfl hended hr hby hbudget
    have hc : s'.worker.config = s.worker.config := by
      rw [hs]
      rfl
    rw [hc]
    exact ⟨⟨taken, _, by rw [hdl, hc, hdeadline], by rw [hc]; exact hcount, hat'⟩, hw'⟩
  | cleansUp => exact stay rfl rfl ⟨(quiet rfl).trans hat.1, hat.2⟩
  | cleanedUp hstage hleave =>
    rcases hstage with rfl | ⟨_, rfl⟩ <;> exact leave t rfl rfl rfl hat.1 hat.2 hleave rfl
  | aborts =>
    obtain ⟨hh, he, hc⟩ := hat
    subst hs
    refine ⟨⟨taken, attempts, hdeadline, hbudget, ?_, he, hc⟩, hw.cons ⟨taken, attempts, t, _, hh, he, hc⟩⟩
    rw [history_append, hh, history_own (by simp [Event.terminalCall])]
    rfl
  | concludes hstage =>
    rcases hstage with rfl | rfl
    · exact stay rfl rfl ⟨.inl ((quiet rfl).trans hat.1), hat.2.1⟩
    · exact stay rfl rfl ⟨.inr ⟨(quiet rfl).trans hat.1, hat.2.2⟩, hat.2.1⟩

/-- Time passes, and nothing of the command is seen. -/
theorem TrackedAt.later {s : Sys A B} (h : s.TrackedAt t taken attempts stage) (hworker : s'.worker = s.worker)
    (hh : history t.call s'.log = history t.call s.log) (hle : s.now ≤ s'.now)
    (hn : s'.now = s.now ∨ (Phase.terminal t stage).waits = true) : s'.TrackedAt t taken attempts stage := by
  cases stage with
  | retrying => exact ⟨hh.trans h.1, h.2.1, h.2.2.mono (by omega)⟩
  | acquiring => exact ⟨hh.trans h.1, h.2.1, h.2.2.mono hle⟩
  | calling scheduled kept =>
    have hn := hn.resolve_right Bool.false_ne_true
    exact ⟨hh.trans h.1, h.2.1, h.2.2.1.mono hle, hn ▸ h.2.2.2⟩
  | inCall scheduled kept since =>
    obtain ⟨⟨startedAt, hs⟩, hr, hby⟩ := h
    exact ⟨⟨startedAt, hh.trans hs⟩, hr, hby.mono hle⟩
  | completing attempt =>
    obtain ⟨⟨startedAt, endedAt, b, hended, hb, hs⟩, hr, hby⟩ := h
    exact ⟨⟨startedAt, endedAt, b, Nat.le_trans hended hle, hworker ▸ hb, hh.trans hs⟩, hr, hby.mono hle⟩
  | cleanupAcquire until' output | cleaningUp until' output scheduled => exact ⟨hh.trans h.1, h.2⟩
  | abortAcquire until' outcome | aborting until' outcome => exact ⟨hh.trans h.1, h.2⟩
  | concluding outcome => exact ⟨h.1.imp hh.trans fun hc => ⟨hh.trans hc.1, hc.2⟩, h.2⟩

theorem Tracked.later {s : Sys A B} (h : s.Tracked t stage) (hworker : s'.worker = s.worker) (hl : s'.log = evs ++ s.log)
    (he : Aside evs) (hle : s.now ≤ s'.now) (hn : s'.now = s.now ∨ (Phase.terminal t stage).waits = true) :
    s'.Tracked t stage := by
  obtain ⟨taken, attempts, hdeadline, hbudget, hat⟩ := h
  refine ⟨taken, attempts, hworker ▸ hdeadline, hworker ▸ hbudget, hat.later hworker ?_ hle hn⟩
  rw [hl, history_append, he.history, List.nil_append]

end Inside

/-- Nothing has been seen of a command that is not received yet. -/
theorem CallsInv.history_pending {s : Sys A B} (h : s.CallsInv) (call : CallId) (hp : call ∈ s.pending) :
    history call s.log = [] := by
  refine List.filter_eq_nil_iff.mpr fun e he => ?_
  rw [decide_eq_true_eq]
  exact fun hc => (h.spent e he call hc).2 hp

/-! ## Runs -/

structure TerminalInv (s : Sys A B) : Prop where
  calls : s.CallsInv
  tracked : ∀ t stage, s.phase = .terminal t stage → s.Tracked t stage
  warranted : AllWarranted s.worker.config s.log

theorem TerminalStep.inv {s s' : Sys A B} (h : TerminalStep s s') (hi : s.TerminalInv) : s'.TerminalInv := by
  have hcalls := h.calls hi.calls
  cases h with
  | beside evs hp hn hph hw hle hnow hl he =>
    refine ⟨hcalls, fun t stage h => ?_, ?_⟩
    · have h : s.phase = .terminal t stage := hph ▸ h
      exact (hi.tracked t stage h).later hw hl he hle (h ▸ hnow)
    · rw [hl, hw]
      exact hi.warranted.aside he
  | called command evs hr hu hq hn hph hw hnow hl he =>
    refine ⟨hcalls, fun t stage h => ?_, ?_⟩
    · exact (hi.tracked t stage (hph ▸ h)).later hw hl he (Nat.le_of_eq hnow.symm) (.inl hnow)
    · rw [hl, hw]
      exact hi.warranted.aside he
  | sent hmem hr hs =>
    subst hs
    exact ⟨hcalls, fun t stage h =>
      (hi.tracked t stage h).later rfl (List.nil_append _).symm .nil (Nat.le_refl _) (.inl rfl), hi.warranted⟩
  | quiet evs hp hn hc hl he hidle =>
    refine ⟨hcalls, fun t stage h => absurd h (hidle t stage), ?_⟩
    rw [hl, hc]
    exact hi.warranted.aside he
  | @taken command rest kind payload evs hq hu hq' hn hc hph hl he =>
    have hnone := hi.calls.history_pending command.reply (by simp [pending, hq])
    refine ⟨hcalls, fun t stage h => ?_, ?_⟩
    · rw [hph] at h
      cases h
      refine ⟨s'.now, [], by rw [hc], Nat.zero_le _, ?_, ⟨rfl, rfl⟩, fun _ hmem => absurd hmem List.not_mem_nil⟩
      show history command.reply s'.log = _
      rw [hl, List.cons_append, show Event.taken command.reply s'.now :: (evs ++ s.log) =
        [.taken command.reply s'.now] ++ (evs ++ s.log) from rfl, history_append, history_append, he.history, hnone,
        history_own (by simp [Event.terminalCall])]
      rfl
    · rw [hl, hc]
      exact (hi.warranted.aside he).cons True.intro
  | @moved t stage b t' stage' b' evs hp hb hm hs =>
    have hboth := hm.tracked hb (hi.tracked t stage hp) hi.warranted hs
    refine ⟨hcalls, fun t₁ stage₁ h => ?_, hboth.2⟩
    rw [hs] at h
    cases h
    exact hboth.1
  | cancelled hp _ _ hc hidle hl =>
    refine ⟨hcalls, fun t stage h => absurd h (hidle t stage), ?_⟩
    rw [hl, hc]
    refine AllWarranted.cons (e := .loopEnded _) True.intro ?_
    exact AllWarranted.cons (e := .cancelled _) True.intro hi.warranted
  | @answered t outcome result evs evs' hp hr _ _ hc hidle hl he he' =>
    obtain ⟨taken, attempts, -, -, hstory, hexplains⟩ := hi.tracked _ _ hp
    refine ⟨hcalls, fun t stage h => absurd h (hidle t stage), ?_⟩
    rw [hl, hc]
    refine AllWarranted.aside he ((hi.warranted.aside he').cons ⟨taken, attempts, t, outcome, ?_, hexplains, hr⟩)
    rw [history_append, he'.history, List.nil_append]
    exact hstory

theorem terminalInv_of_run {τ : List Unit} {s : Sys A B} (hr : (drafter A B).Run Core.Machine.anything τ s) :
    s.TerminalInv := by
  refine drafter_induct (I := TerminalInv) ?_ (fun s a s' h _ hb hi => (h.terminal hb).inv hi) hr
  rintro s ⟨accumulator, b, uses, config, now, -, rfl⟩
  have hidle : (spawn (A := A) accumulator b uses config now).Idles := fun _ _ h => nomatch h
  exact ⟨⟨List.nodup_nil, fun _ h => absurd h List.not_mem_nil, fun _ h => absurd h List.not_mem_nil,
      fun t stage h => absurd h (hidle t stage)⟩,
    fun t stage h => absurd h (hidle t stage), .nil _⟩

end Sys

/-! ## Attempts -/

def Event.isAttempt (call : CallId) : Event B → Bool
  | .attempt c _ => c = call
  | _ => false

namespace Sys

theorem Leaves.no_attempt {t : Terminal B} {outcome : TerminalOutcome B.Delivered B.Error} {stage : TerminalStage B}
    {evs : List (Event B)} (h : Leaves t outcome stage evs) (call : CallId) (startedAt : Nat) :
    .attempt call startedAt ∉ evs := by
  cases h <;> simp

theorem Settles.no_attempt {now budget : Nat} {b : B.State} {t t' : Terminal B} {attempt : TerminalCall B}
    {stage : TerminalStage B} {evs : List (Event B)} (h : Settles now budget b t attempt t' stage evs) (call : CallId)
    (startedAt : Nat) : .attempt call startedAt ∉ evs := by
  cases h with
  | cleansUp | retries => exact List.not_mem_nil
  | succeeds _ hl | timedOut _ hl | overdue _ hl | fails _ _ _ hl => exact hl.no_attempt call startedAt

theorem Moves.open_of_attempt {s : Sys A B} {t t' : Terminal B} {b b' : B.State} {stage stage' : TerminalStage B}
    {evs : List (Event B)} (h : Moves s t b stage t' stage' b' evs) {call : CallId} {startedAt : Nat}
    (hmem : .attempt call startedAt ∈ evs) : s.isClosed call = false := by
  cases h with
  | calls hopen =>
    cases List.mem_singleton.mp hmem
    exact hopen
  | resumes | granted | cleansUp | concludes => cases hmem
  | keeps | aborts => cases List.mem_singleton.mp hmem
  | overdue _ _ _ hl | refused hl | cleanedUp _ hl => exact absurd hmem (hl.no_attempt call startedAt)
  | completes hs => exact absurd hmem (hs.no_attempt call startedAt)
  | ends hs =>
    rcases List.mem_append.mp hmem with hmem | hmem
    · exact absurd hmem (hs.no_attempt call startedAt)
    · cases List.mem_singleton.mp hmem

/-- A call begins only while its caller waits for it. -/
theorem TerminalStep.open_of_attempt {s s' : Sys A B} (h : TerminalStep s s') {call : CallId} {startedAt : Nat}
    (hl : s'.log = .attempt call startedAt :: s.log) : s.isClosed call = false := by
  have aside : ∀ {evs : List (Event B)}, s'.log = evs ++ s.log → Aside evs → s.isClosed call = false := by
    intro evs hl' he
    have : evs = [.attempt call startedAt] := List.append_cancel_right (hl'.symm.trans hl)
    cases he (.attempt call startedAt) (by simp [this])
  cases h with
  | beside evs _ _ _ _ _ _ hl' he => exact aside hl' he
  | called _ evs _ _ _ _ _ _ _ hl' he => exact aside hl' he
  | quiet evs _ _ _ hl' he _ => exact aside hl' he
  | sent _ _ hs =>
    subst hs
    exact absurd hl (List.cons_ne_self _ _).symm
  | taken evs _ _ _ _ _ _ hl' _ => cases (List.cons.inj (hl'.symm.trans hl)).1
  | cancelled _ _ _ _ _ hl' => cases (List.cons.inj (hl'.symm.trans hl)).1
  | @moved t stage b t' stage' b' evs _ _ hm hs =>
    subst hs
    have : evs = [.attempt call startedAt] := List.append_cancel_right hl
    have hmem : .attempt call startedAt ∈ evs := by simp [this]
    exact hm.open_of_attempt hmem
  | @answered t outcome result evs evs' _ _ _ _ _ _ hl' he he' =>
    have heq : (evs ++ .answered t.call result :: evs') ++ s.log = [.attempt call startedAt] ++ s.log := by
      simpa using hl'.symm.trans hl
    replace heq := List.append_cancel_right heq
    cases evs with
    | nil => cases (List.cons.inj heq).1
    | cons e rest => cases rest <;> cases (List.cons.inj heq).2

end Sys

/-- The backend was called again only when it had asked for that, in time, and not
too often. -/
structure Sys.DeliversOnce (s : Sys A B) : Prop where
  /-- at most so many calls for one command -/
  bounded : ∀ call, s.log.countP (Event.isAttempt call) ≤ s.worker.config.terminalRetryBudget + 1
  /-- when a call begins all the earlier ones have been classified `RetryAfter`,
  their delays are over, the deadline is not, and nothing else has happened -/
  warranted : ∀ call startedAt older, (.attempt call startedAt :: older) <:+ s.log →
    ∃ taken attempts, history call older = told call taken attempts ∧
      attempts.length ≤ s.worker.config.terminalRetryBudget ∧ ReadyBy startedAt attempts ∧
      startedAt < taken + s.worker.config.terminalTimeout
  /-- no call begins after the caller is gone -/
  heeded : ∀ a s' call startedAt, s.step a = some s' → s'.log = .attempt call startedAt :: s.log → call ∉ s.dropped

theorem countP_told (call : CallId) (taken : Nat) (attempts : List Attempt) :
    (told (B := B) call taken attempts).countP (Event.isAttempt call) = attempts.length := by
  induction attempts with
  | nil => rfl
  | cons attempt rest ih => simp [told, Event.isAttempt, ih]

theorem countP_history (call : CallId) (log : List (Event B)) :
    (history call log).countP (Event.isAttempt call) = log.countP (Event.isAttempt call) := by
  unfold history
  rw [List.countP_filter]
  refine List.countP_congr fun e _ => ?_
  cases e <;> simp [Event.isAttempt, Event.terminalCall]

/-- The bound on the calls follows from what is known at the last of them. -/
theorem AllWarranted.bounded {config : DraftConfig} {log : List (Event B)} (h : AllWarranted config log)
    (call : CallId) : log.countP (Event.isAttempt call) ≤ config.terminalRetryBudget + 1 := by
  induction log with
  | nil => exact Nat.zero_le _
  | cons e older ih =>
    have hrest : AllWarranted config older := fun e' older' hs => h e' older' (hs.trans (List.suffix_cons _ _))
    cases he : e.isAttempt call with
    | false =>
      rw [List.countP_cons_of_neg (by simp [he])]
      exact ih hrest
    | true =>
      rw [List.countP_cons_of_pos he]
      have hw := h e older (List.suffix_refl _)
      cases e with
      | attempt c startedAt =>
        obtain rfl : c = call := by simpa [Event.isAttempt] using he
        obtain ⟨taken, attempts, hh, hlen, -⟩ := hw
        rw [← countP_history, hh, countP_told]
        exact Nat.succ_le_succ hlen
      | _ => cases he

/-- A terminal command is delivered at most once, as far as the worker can tell. -/
theorem terminal_delivered_once {τ : List Unit} {s : Sys A B} (hr : (drafter A B).Run Core.Machine.anything τ s) :
    s.DeliversOnce := by
  have hw := (Sys.terminalInv_of_run hr).warranted
  refine ⟨hw.bounded, fun _ _ _ hs => hw _ _ hs, fun a s' call startedAt hs hl => ?_⟩
  have := ((Sys.step_cases hs).terminal (backend_of_run hr)).open_of_attempt hl
  simpa [Sys.isClosed] using this

/-- A commit is asked to wait for two seconds, and gets through after them. -/
def retriedCommitRun : List (Action (replacePreview String) (editInPlaceBackend String.length)) :=
  [.commit "a", .send 0, .work (.view () true), .work .command, .work (.permit true), .work .go,
    .work (.reply fun _ => .error (.inner (.retryAfter 2))), .work .settled, .advance (fromSecs 2), .work .go,
    .work (.permit true), .work .go, .work (.reply fun _ => .ok ⟨1⟩), .work .settled, .work .go]

theorem terminal_delivered_once_retriedCommitRun :
    ∃ τ s, (drafter _ _).exec Core.Machine.anything [] plainDrafter retriedCommitRun = some (τ, s) ∧
      s.log.countP (Event.isAttempt 0) = 2 ∧ s.DeliversOnce := by
  have h : ((drafter _ _).exec Core.Machine.anything [] plainDrafter retriedCommitRun).map
      (fun r => r.2.log.countP (Event.isAttempt 0)) = some 2 := by decide
  obtain ⟨⟨τ, s⟩, he, hs⟩ := Option.map_eq_some_iff.mp h
  exact ⟨τ, s, he, hs, terminal_delivered_once (Core.Machine.run_of_exec (.start plainDrafter_spawned) he)⟩

end Teloxide.Drafter
