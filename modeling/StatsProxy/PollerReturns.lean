import StatsProxy.Library.Returning
import StatsProxy.PollerTrace

/-! How the single calls of a poller return: each takes one answer and leaves one
event. -/
namespace StatsProxy
open CString Interaction Program Poller

/-- The time that is left at a clock reading. -/
def SocketState.update (sk : SocketState) (now : Int) : SocketState :=
  { sk with timeRemaining := sk.timeout - (now - sk.startTime).natAbs }

section

variable {η : Type} [Machine η Event] {x : World × η} {a : Answer} {inputs : List Answer}

theorem ends_call {outcome : Answer → α} {event : α → Event}
    {Q : α → List Answer → World × η → Prop}
    (h : Q (outcome a) inputs (Machine.after x (event (outcome a)))) :
    Ends (call outcome event) Q x (a :: inputs) :=
  ends_bind (ends_ask (ends_bind (ends_emit (ends_pure h))))

theorem ends_backend {Q : Backend → List Answer → World × η → Prop} (h : Q x.1.bep inputs x) :
    Ends backend Q x inputs :=
  ends_bind (ends_get (ends_pure h))

theorem ends_write {offered : Bytes} {Q : SysResult Nat → List Answer → World × η → Prop}
    (h : Q (writeResult x.1.bep.fd offered a.write) inputs
      (Machine.after x (.write offered (writeResult x.1.bep.fd offered a.write)))) :
    Ends (write offered) Q x (a :: inputs) :=
  ends_bind (ends_backend (ends_bind (ends_ask (ends_bind (ends_emit (ends_pure h))))))

theorem ends_read {len : Nat} {Q : SysResult Bytes → List Answer → World × η → Prop}
    (h : Q (readResult x.1.bep.fd len a.read) inputs
      (Machine.after x (.read len (readResult x.1.bep.fd len a.read)))) :
    Ends (read len) Q x (a :: inputs) :=
  ends_bind (ends_backend (ends_bind (ends_ask (ends_bind (ends_emit (ends_pure h))))))

theorem ends_sessionInfo {timeoutMs : Int} {Q : SocketState → List Answer → World × η → Prop}
    (h : Q ⟨a.gettimeofday, 0, timeoutMs, timeoutMs⟩ inputs
      (Machine.after x (.gettimeofday a.gettimeofday))) :
    Ends (sessionInfo timeoutMs) Q x (a :: inputs) :=
  ends_bind (ends_call (ends_pure h))

theorem ends_updateTimeRemaining {sk : SocketState}
    {Q : SocketState → List Answer → World × η → Prop}
    (h : Q (sk.update a.gettimeofday) inputs
      (Machine.after x (.gettimeofday a.gettimeofday))) :
    Ends (spMemcacheStatsUpdateTimeRemaining sk) Q x (a :: inputs) :=
  ends_bind (ends_call (ends_pure h))

/-- Closing a descriptor of its own, the thread goes on. -/
theorem ends_bail (ho : Owned x.1) (err : Nat) {Q : Nat → List Answer → World × η → Prop}
    (h : ∀ y : World × η, Q err inputs y) : Ends (bail err) Q x inputs := by
  unfold bail spMemcacheDisconnect
  apply ends_bind
  apply ends_bind
  apply ends_backend
  split
  · rename_i hfd
    apply ends_bind
    apply ends_bind
    apply ends_assert
    · rcases ho with ⟨hnone, -⟩ | ⟨-, hone⟩
      · omega
      · simp [hone]
    apply ends_emit
    apply ends_emit
    apply ends_bind
    apply ends_emit
    exact ends_pure (h _)
  · apply ends_pure
    apply ends_bind
    apply ends_emit
    exact ends_pure (h _)

end

end StatsProxy
