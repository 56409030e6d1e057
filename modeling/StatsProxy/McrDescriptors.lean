import StatsProxy.Library.Descriptors
import StatsProxy.ReporterSetting

/-! The descriptors of a call to the reporter. The `bail` label closes the stream
and then the descriptor that the stream has closed already, a listing of the
instances loses its first socket, and a failing `fdopen` is not noticed. -/
namespace StatsProxy
open CString Interaction Program Descriptors

/-- The calls to the reporter. -/
inductive McrCall where
  | updateInstances
  | updateTopKeys (op dotquad : Bytes) (port mcrtime nkeys : Nat)
  | updateTopClients (dotquad : Bytes) (port : Nat) (key : Bytes) (mcrtime nclnts : Nat)
  | instanceOp (op addr : Bytes) (port : Nat)

def McrCall.program : McrCall → Client Int
  | .updateInstances => mcrUpdateInstances
  | .updateTopKeys op dotquad port mcrtime nkeys => mcrUpdateTopKeys op dotquad port mcrtime nkeys
  | .updateTopClients dotquad port key mcrtime nclnts =>
    mcrUpdateTopClients dotquad port key mcrtime nclnts
  | .instanceOp op addr port => mcrInstanceOp op addr port

/-- `fclose` closes the descriptor of its stream. -/
def ClientEvent.fdOp : ClientEvent → Option FdOp
  | .socket (.ok fd) => some (.opens fd)
  | .fclose fd | .close fd => some (.closes fd)
  | _ => none

/-- A call among the steps of other threads. It leaves open none of the descriptors
it has opened, closes only those, and uses no null stream. -/
structure Balanced (r : Result ClientEvent ClientAnswer Int) (t : FdTable)
    (schedule : List (ClientEvent ⊕ FdOp)) : Prop where
  released : ∀ err trace rest, r = .done err trace rest →
    (t.run ClientEvent.fdOp schedule).mine = []
  closes : ClosesOwn ClientEvent.fdOp t schedule
  stream : .crash ∉ r.trace

/-- The call has no descriptor to give back twice or to lose: for a listing of the
instances its first `socket` fails, for the others `socket` or `connect`. -/
def McrCall.Unconnected (call : McrCall) (trace : List ClientEvent) : Prop :=
  match call with
  | .updateInstances => ∃ e, trace.head? = some (.socket (.error e))
  | _ => (∃ e, .socket (.error e) ∈ trace) ∨ ∃ e, .connect (.error e) ∈ trace

/-- The call is still waiting for an answer, and its stream has been opened if it
has asked for one. -/
def Pending (r : Result ClientEvent ClientAnswer Int) : Prop :=
  ∃ trace, r = .waiting trace ∧ .fdopen false ∉ trace

/-- An event of the exchange over an open stream. -/
def ClientEvent.exchanges : ClientEvent → Bool
  | .fputs _ | .fgets _ => true
  | _ => false

/-- An event after which nothing is wrong. -/
def ClientEvent.calm : ClientEvent → Bool
  | .fclose _ | .close _ | .crash | .fdopen false => false
  | _ => true

/-- The steps of a command that is waiting. -/
inductive Stopped : List ClientEvent → Prop
  | calm (steps : List ClientEvent) (h : ∀ e ∈ steps, e.calm = true) : Stopped steps
  | crashed (fd : Nat) :
    Stopped [.socket (.ok fd), .connect (.ok ()), .fdopen false, .crash]

/-- The steps of a command that has returned. -/
inductive Finished : List ClientEvent → Prop
  | noSocket (e : Errno) : Finished [.socket (.error e)]
  | noConnect (fd : Nat) (e : Errno) :
    Finished [.socket (.ok fd), .connect (.error e), .close fd]
  | closedTwice (fd : Nat) (steps : List ClientEvent) (h : ∀ e ∈ steps, e.exchanges = true) :
    Finished ([.socket (.ok fd), .connect (.ok ()), .fdopen true] ++ steps ++
      [.fclose fd, .close fd])

/-- A program that only exchanges lines over the open stream. -/
def Exchanges (m : Client α) : Prop :=
  ∀ I : Unit × List ClientEvent → Prop,
    (∀ x e, e.exchanges = true → I x → I (Machine.after x e)) → Keeps I m

theorem exchanges_fgetsLine : Exchanges fgetsLine := by
  intro I hI
  apply keeps_bind keeps_ask
  intro a
  apply keeps_bind (keeps_emit fun x => hI x _ rfl)
  intro _
  exact keeps_pure _

theorem exchanges_readReply (stop : Bytes → Option Int) : Exchanges (readReply stop) := by
  intro I hI
  apply keeps_loop
  intro _
  unfold replyStep
  apply keeps_bind (exchanges_fgetsLine I hI)
  intro r
  split
  · exact keeps_pure _
  · split <;> exact keeps_pure _

theorem wp_mcrCommand {first : List ClientEvent} {cmd : Bytes} {reply : Client Int}
    (hreply : Exchanges reply) :
    wp (fun y => ∃ steps, y.2 = first ++ steps ∧ Stopped steps) (mcrCommand cmd reply)
      (fun _ y => ∃ steps, y.2 = first ++ steps ∧ Finished steps) ((), first) := by
  unfold mcrCommand mcrConnectRemote
  apply wp_bind
  apply wp_bind
  apply wp_clientCall ⟨[], by simp, .calm [] nofun⟩
  intro r
  cases r with
  | error e =>
    apply wp_pure
    apply wp_pure
    exact ⟨_, rfl, .noSocket e⟩
  | ok fd =>
    apply wp_bind
    apply wp_clientCall ⟨[.socket (.ok fd)], rfl, .calm _ (by simp [ClientEvent.calm])⟩
    intro r
    cases r with
    | error e =>
      apply wp_pure
      apply wp_bind
      apply wp_pure
      apply wp_bind
      apply wp_emit
      apply wp_pure
      exact ⟨_, by simp [Machine.after], .noConnect fd e⟩
    | ok _ =>
      apply wp_bind
      apply wp_clientCall ⟨[.socket (.ok fd), .connect (.ok ())], by simp [Machine.after],
        .calm _ (by simp [ClientEvent.calm])⟩
      intro opened
      apply wp_pure
      cases opened with
      | false =>
        apply wp_bind
        apply wp_emit
        apply wp_halt
        exact ⟨_, by simp [Machine.after], .crashed fd⟩
      | true =>
        apply wp_bind
        apply wp_emit
        apply wp_bind
        -- what has been exchanged so far
        let Inv (y : Unit × List ClientEvent) : Prop := ∃ steps,
          y.2 = first ++ ([.socket (.ok fd), .connect (.ok ()), .fdopen true] ++ steps) ∧
            ∀ e ∈ steps, e.exchanges = true
        have hstep : ∀ (y : Unit × List ClientEvent) (e : ClientEvent), e.exchanges = true →
            Inv y → Inv (Machine.after y e) := by
          rintro y e he ⟨steps, hlog, hsteps⟩
          refine ⟨steps ++ [e], ?_, ?_⟩
          · show y.2 ++ [e] = _
            rw [hlog]
            simp
          · intro e' he'
            rcases List.mem_append.mp he' with he' | he'
            · exact hsteps e' he'
            · rw [List.mem_singleton.mp he']
              exact he
        apply wp_mono (hreply Inv hstep _ ⟨[.fputs cmd], by simp [Machine.after], by
          simp [ClientEvent.exchanges]⟩)
        · rintro y ⟨steps, hlog, hsteps⟩
          refine ⟨_, hlog, .calm _ ?_⟩
          intro e he
          rcases List.mem_append.mp he with he | he
          · simp only [List.mem_cons, List.not_mem_nil, or_false] at he
            rcases he with rfl | rfl | rfl <;> rfl
          · have hexchange := hsteps e he
            cases e <;> first | rfl | contradiction
        · rintro err y ⟨steps, hlog, hsteps⟩
          apply wp_bind
          apply wp_emit
          apply wp_bind
          apply wp_emit
          apply wp_pure
          refine ⟨_, ?_, .closedTwice fd steps hsteps⟩
          show y.2 ++ [_] ++ [_] = _
          rw [hlog]
          simp

/-- What a call does before it connects. -/
def McrCall.Lead (call : McrCall) (first : List ClientEvent) : Prop :=
  match call with
  | .updateInstances => ∃ fd : Nat, first = [.socket (.ok fd)]
  | _ => first = []

/-- The runs of a call. -/
inductive CallRun (call : McrCall) : Result ClientEvent ClientAnswer Int → Prop
  | unasked : CallRun call (.waiting [])
  | stopped (first steps : List ClientEvent) (hfirst : call.Lead first) (h : Stopped steps) :
    CallRun call (.waiting (first ++ steps))
  | refused (err : Int) (e : Errno) (rest : List ClientAnswer) (h : call = .updateInstances) :
    CallRun call (.done err [.socket (.error e)] rest)
  | finished (err : Int) (first steps : List ClientEvent) (rest : List ClientAnswer)
    (hfirst : call.Lead first) (h : Finished steps) : CallRun call (.done err (first ++ steps) rest)

theorem callRun_of_wp (call : McrCall) {m : Client Int} {first : List ClientEvent}
    (hfirst : call.Lead first)
    (h : wp (fun y => ∃ steps, y.2 = first ++ steps ∧ Stopped steps) m
      (fun _ y => ∃ steps, y.2 = first ++ steps ∧ Finished steps) ((), first))
    (inputs : List ClientAnswer) : CallRun call ((m.exec () inputs).prepend first) := by
  have hm := h inputs
  cases hr : m.exec () inputs with
  | done err trace rest =>
    rw [hr] at hm
    obtain ⟨steps, hlog, hsteps⟩ := hm
    rw [run_prod, run_log] at hlog
    rw [Result.prepend, List.append_cancel_left hlog]
    exact .finished err first steps rest hfirst hsteps
  | waiting trace =>
    rw [hr] at hm
    obtain ⟨steps, hlog, hsteps⟩ := hm
    rw [run_prod, run_log] at hlog
    rw [Result.prepend, List.append_cancel_left hlog]
    exact .stopped first steps hfirst hsteps
  | failed trace =>
    rw [hr] at hm
    exact hm.elim

theorem callRun_command (call : McrCall) {cmd : Bytes} {reply : Client Int}
    (hlead : call.Lead []) (hprogram : call.program = mcrCommand cmd reply)
    (hreply : Exchanges reply) (inputs : List ClientAnswer) :
    CallRun call (call.program.exec () inputs) := by
  rw [hprogram, ← Result.prepend_nil ((mcrCommand cmd reply).exec () inputs)]
  exact callRun_of_wp call hlead (wp_mcrCommand hreply) inputs

/-- `mcr_updateInstances` after its own socket call. -/
def instancesCommand : SysResult Nat → Client Int
  | .error _ => pure (-1)
  | .ok _ => mcrCommand (ascii "show instances\r\n") <| readReply fun line =>
    if line = endLine ∨ line = errorLine then some 0 else none

theorem callRun (call : McrCall) (inputs : List ClientAnswer) :
    CallRun call (call.program.exec () inputs) := by
  cases call with
  | updateInstances =>
    cases inputs with
    | nil => exact .unasked
    | cons a inputs =>
      have hexec : McrCall.updateInstances.program.exec () (a :: inputs) =
          ((instancesCommand a.socket).exec () inputs).prepend [.socket a.socket] := rfl
      rw [hexec]
      cases a.socket with
      | error e => exact .refused (-1) e inputs rfl
      | ok fd =>
        apply callRun_of_wp .updateInstances ⟨fd, rfl⟩
        exact wp_mcrCommand (exchanges_readReply _)
  | updateTopKeys op dotquad port mcrtime nkeys =>
    apply callRun_command
    · rfl
    · rfl
    · exact exchanges_readReply _
  | updateTopClients dotquad port key mcrtime nclnts =>
    apply callRun_command
    · rfl
    · rfl
    · exact exchanges_readReply _
  | instanceOp op addr port =>
    apply callRun_command (.instanceOp op addr port) rfl rfl
    intro I hI
    apply keeps_bind (exchanges_fgetsLine I hI)
    intro r
    cases r <;> exact keeps_pure _

/-- The part of `Balanced` that the call's own steps decide. -/
def ClosesMine (trace : List ClientEvent) : Prop :=
  AtEach (fun before e => ∀ fd, e.fdOp = some (.closes fd) →
    fd ∈ mineAfter ClientEvent.fdOp [] before) trace

theorem exchanges_fdOp {e : ClientEvent} (h : e.exchanges = true) : e.fdOp = none := by
  cases e <;> first | rfl | contradiction

theorem calm_closesMine {trace : List ClientEvent} (h : ∀ e ∈ trace, e.calm = true) :
    ClosesMine trace := by
  apply atEach_of_mem
  intro e he before fd hclose
  have hcalm := h e he
  cases e with
  | socket r => cases r <;> simp [ClientEvent.fdOp] at hclose
  | fclose fd => contradiction
  | close fd => contradiction
  | _ => simp [ClientEvent.fdOp] at hclose

/-- The second `close` of a descriptor that was opened once. -/
theorem not_closesMine_twice {first steps : List ClientEvent} {fd : Nat}
    (hsteps : ∀ e ∈ steps, e.exchanges = true)
    (hfresh : (fd : Int) ∉ mineAfter ClientEvent.fdOp [] first) :
    ¬ClosesMine (first ++ ([.socket (.ok fd), .connect (.ok ()), .fdopen true] ++ steps ++
      [.fclose fd, .close fd])) := by
  intro h
  have hlast := h (first ++ ([.socket (.ok fd), .connect (.ok ()), .fdopen true] ++ steps ++
    [.fclose fd])) (.close fd) [] (by simp) fd rfl
  rw [mineAfter_append, mineAfter_append, mineAfter_append,
    mineAfter_none fun e he => exchanges_fdOp (hsteps e he)] at hlast
  simp [mineAfter, ClientEvent.fdOp] at hlast
  exact hfresh hlast

/-- `Balanced`, by the call's own steps. -/
structure BalancedSteps (r : Result ClientEvent ClientAnswer Int) : Prop where
  released : ∀ err trace rest, r = .done err trace rest → mineAfter ClientEvent.fdOp [] trace = []
  closes : ClosesMine r.trace
  stream : .crash ∉ r.trace

theorem balanced_steps {r : Result ClientEvent ClientAnswer Int} {others : List Int}
    {schedule : List (ClientEvent ⊕ FdOp)} (hothers : others.Nodup)
    (hown : ownSteps schedule = r.trace)
    (hf : Feasible ClientEvent.fdOp ⟨[], others⟩ schedule) :
    Balanced r ⟨[], others⟩ schedule ↔ BalancedSteps r := by
  have hapart : FdTable.Apart ⟨[], others⟩ := ⟨List.nodup_nil, hothers, List.disjoint_nil_left _⟩
  have hcloses := closesOwn_iff hf hapart
  have hmine := @mine_run _ ClientEvent.fdOp ⟨[], others⟩ schedule
  rw [hown] at hcloses hmine
  have hreleased : ∀ err trace rest, r = .done err trace rest →
      (FdTable.run ClientEvent.fdOp ⟨[], others⟩ schedule).mine =
        mineAfter ClientEvent.fdOp [] trace := by
    rintro err trace rest rfl
    exact hmine
  constructor
  · rintro ⟨hr, hc, hs⟩
    refine ⟨fun err trace rest h => ?_, hcloses.mp hc, hs⟩
    rw [← hreleased err trace rest h]
    exact hr err trace rest h
  · rintro ⟨hr, hc, hs⟩
    refine ⟨fun err trace rest h => ?_, hcloses.mpr hc, hs⟩
    rw [hreleased err trace rest h]
    exact hr err trace rest h

theorem balanced_calm {trace : List ClientEvent} (h : ∀ e ∈ trace, e.calm = true) :
    BalancedSteps (.waiting trace) ∧ Pending (.waiting trace) := by
  constructor
  · exact ⟨nofun, calm_closesMine h, fun hmem => absurd (h _ hmem) nofun⟩
  · exact ⟨trace, rfl, fun hmem => absurd (h _ hmem) nofun⟩

theorem McrCall.lead_calm {call : McrCall} {first : List ClientEvent} (h : call.Lead first) :
    ∀ e ∈ first, e.calm = true := by
  cases call with
  | updateInstances =>
    obtain ⟨fd, rfl⟩ := h
    intro e he
    rw [List.mem_singleton.mp he]
    rfl
  | _ =>
    rw [show first = [] from h]
    exact nofun

theorem unconnected_lead {call : McrCall} {first steps : List ClientEvent} (h : call.Lead first) :
    call.Unconnected (first ++ steps) ↔ call ≠ .updateInstances ∧
      ((∃ e, .socket (.error e) ∈ steps) ∨ ∃ e, .connect (.error e) ∈ steps) := by
  cases call with
  | updateInstances =>
    obtain ⟨fd, rfl⟩ := h
    simp [McrCall.Unconnected]
  | _ =>
    rw [show first = [] from h]
    simp [McrCall.Unconnected]

theorem McrCall.lead_nil {call : McrCall} {first : List ClientEvent} (h : call ≠ .updateInstances)
    (hfirst : call.Lead first) : first = [] := by
  cases call with
  | updateInstances => exact absurd rfl h
  | _ => exact hfirst

/-- A call that has opened its stream, or has opened a socket before, is not
balanced when it returns. -/
theorem balanced_finished {call : McrCall} {first steps : List ClientEvent} {err : Int}
    {rest : List ClientAnswer} (hfirst : call.Lead first) (h : Finished steps)
    (hnodup : ∀ front, front <+: first ++ steps → (mineAfter ClientEvent.fdOp [] front).Nodup) :
    BalancedSteps (.done err (first ++ steps) rest) ↔ call.Unconnected (first ++ steps) := by
  have hfresh : ∀ fd : Nat, ∀ more, steps = .socket (.ok fd) :: more →
      (fd : Int) ∉ mineAfter ClientEvent.fdOp [] first := by
    rintro fd more rfl
    have hpair := hnodup (first ++ [.socket (.ok fd)]) ⟨more, by simp⟩
    rw [mineAfter_append] at hpair
    exact (List.nodup_cons.mp hpair).1
  rw [unconnected_lead hfirst]
  cases h with
  | noSocket e =>
    by_cases hcall : call = .updateInstances
    · apply iff_of_false _ fun hfailed => hfailed.1 hcall
      intro hb
      subst hcall
      obtain ⟨lost, rfl⟩ := hfirst
      have hreleased := hb.released _ _ _ rfl
      simp [mineAfter, ClientEvent.fdOp] at hreleased
    · obtain rfl := McrCall.lead_nil hcall hfirst
      apply iff_of_true
      · constructor
        · rintro err' trace rest' h
          cases h
          rfl
        · apply calm_closesMine
          simp [Result.trace, ClientEvent.calm]
        · simp [Result.trace]
      · exact ⟨hcall, Or.inl ⟨e, List.mem_singleton_self _⟩⟩
  | noConnect fd e =>
    by_cases hcall : call = .updateInstances
    · apply iff_of_false _ fun hfailed => hfailed.1 hcall
      intro hb
      subst hcall
      obtain ⟨lost, rfl⟩ := hfirst
      have hreleased := hb.released _ _ _ rfl
      simp [mineAfter, ClientEvent.fdOp] at hreleased
    · obtain rfl := McrCall.lead_nil hcall hfirst
      apply iff_of_true
      · constructor
        · rintro err' trace rest' h
          cases h
          simp [mineAfter, ClientEvent.fdOp]
        · change ClosesMine ([.socket (.ok fd), .connect (.error e)] ++ [.close fd])
          refine atEach_snoc.mpr ⟨calm_closesMine (by simp [ClientEvent.calm]), ?_⟩
          rintro fd' hclose
          cases hclose
          exact List.mem_singleton_self _
        · simp [Result.trace]
      · exact ⟨hcall, Or.inr ⟨e, by simp⟩⟩
  | closedTwice fd steps hsteps =>
    apply iff_of_false
    · intro hb
      exact not_closesMine_twice hsteps (hfresh fd _ rfl) hb.closes
    · rintro ⟨-, hfailed⟩
      have hsocket : ∀ e, .socket (.error e) ∉ steps :=
        fun e he => absurd (hsteps _ he) (by simp [ClientEvent.exchanges])
      have hconnect : ∀ e, .connect (.error e) ∉ steps :=
        fun e he => absurd (hsteps _ he) (by simp [ClientEvent.exchanges])
      simp [hsocket, hconnect] at hfailed

/-- A call is balanced, whatever other threads do, exactly while it is waiting with
nothing wrong yet, or if it fails before it has anything to give back. -/
theorem balanced_iff (call : McrCall) (inputs : List ClientAnswer) (others : List Int)
    (hothers : others.Nodup) (schedule : List (ClientEvent ⊕ FdOp))
    (hown : ownSteps schedule = (call.program.exec () inputs).trace)
    (hf : Feasible ClientEvent.fdOp ⟨[], others⟩ schedule) :
    Balanced (call.program.exec () inputs) ⟨[], others⟩ schedule ↔
      Pending (call.program.exec () inputs) ∨
        call.Unconnected (call.program.exec () inputs).trace := by
  rw [balanced_steps hothers hown hf]
  have hnodup : ∀ front, front <+: (call.program.exec () inputs).trace →
      (mineAfter ClientEvent.fdOp [] front).Nodup := by
    intro front hfront
    rw [← hown] at hfront
    exact hf.mine_nodup ⟨List.nodup_nil, hothers, List.disjoint_nil_left _⟩ hfront
  have hrun := callRun call inputs
  generalize call.program.exec () inputs = r at hrun hnodup ⊢
  cases hrun with
  | unasked =>
    obtain ⟨hb, hp⟩ := @balanced_calm [] nofun
    exact iff_of_true hb (Or.inl hp)
  | stopped first steps hfirst h =>
    cases h with
    | calm steps hsteps =>
      have hcalm : ∀ e ∈ first ++ steps, e.calm = true := by
        intro e he
        rcases List.mem_append.mp he with he | he
        · exact McrCall.lead_calm hfirst e he
        · exact hsteps e he
      obtain ⟨hb, hp⟩ := balanced_calm hcalm
      exact iff_of_true hb (Or.inl hp)
    | crashed fd =>
      apply iff_of_false
      · intro hb
        exact hb.stream (by simp [Result.trace])
      · rintro (⟨trace, htrace, hopened⟩ | hfailed)
        · cases htrace
          exact hopened (by simp)
        · have := (unconnected_lead hfirst).mp hfailed
          simp at this
  | refused err e rest hcall =>
    subst hcall
    apply iff_of_true
    · constructor
      · rintro err' trace rest' h
        cases h
        rfl
      · apply calm_closesMine
        simp [Result.trace, ClientEvent.calm]
      · simp [Result.trace]
    · exact Or.inr ⟨e, rfl⟩
  | finished err first steps rest hfirst h =>
    rw [balanced_finished hfirst h hnodup]
    constructor
    · exact Or.inr
    · rintro (⟨trace, htrace, -⟩ | hfailed)
      · contradiction
      · exact hfailed

def sampleCall : McrCall := .instanceOp (ascii "add") (ascii "127.0.0.1") 11211

/-- The reporter does not accept the connection, while another thread opens a
descriptor. -/
def refusedSchedule : List (ClientEvent ⊕ FdOp) :=
  [.inl (.socket (.ok 3)), .inr (.opens 4), .inl (.connect (.error EINPROGRESS)), .inl (.close 3)]

theorem balanced_refused :
    Balanced (sampleCall.program.exec () [{ socket := .ok 3 }, { connect := .error EINPROGRESS }])
      ⟨[], [0, 1, 2]⟩ refusedSchedule := by
  apply (balanced_iff sampleCall _ [0, 1, 2] (by decide) refusedSchedule (by decide +kernel)
    (by decide +kernel)).mpr
  right
  exact Or.inr ⟨EINPROGRESS, by decide +kernel⟩

/-- All calls are successful. -/
def acceptedAnswers : List ClientAnswer :=
  [{ socket := .ok 3 }, {}, {}, { fgets := some (endLine, false) }]

/-- Another thread opens a descriptor between `fclose` and `close`. -/
def stolenSchedule : List (ClientEvent ⊕ FdOp) :=
  [.inl (.socket (.ok 3)), .inl (.connect (.ok ())), .inl (.fdopen true),
    .inl (.fputs (ascii "add 127.0.0.1 11211\r\n")), .inl (.fgets (some endLine)), .inl (.fclose 3),
    .inr (.opens 3), .inl (.close 3)]

/-- The last `close` closes the descriptor of the other thread. -/
theorem balanced_fails : ¬∀ (call : McrCall) (inputs : List ClientAnswer) (others : List Int)
    (schedule : List (ClientEvent ⊕ FdOp)), others.Nodup →
    ownSteps schedule = (call.program.exec () inputs).trace →
    Feasible ClientEvent.fdOp ⟨[], others⟩ schedule →
    Balanced (call.program.exec () inputs) ⟨[], others⟩ schedule := by
  intro h
  have hb := h sampleCall acceptedAnswers [0, 1, 2] stolenSchedule (by decide) (by decide +kernel)
    (by decide +kernel)
  have hother : 3 ∈ (FdTable.run ClientEvent.fdOp ⟨[], [0, 1, 2]⟩ (stolenSchedule.take 7)).others :=
    by decide +kernel
  exact (hb.closes (stolenSchedule.take 7) (.inl (.close 3)) [] rfl _ 3 rfl rfl).2 hother

end StatsProxy
