import StatsProxy.Frontend

/-! What the frontend prints. An operation on the reporter prints page text only:
no header, no error answer and no redirect. -/
namespace StatsProxy
open CString Interaction Program

/-- The output starts an answer. -/
def Output.starts : Output → Bool
  | .httpHeader _ | .clientError _ _ | .redirect _ _ => true
  | _ => false

/-- Nothing is printed but page text. -/
def ClientEvent.page : ClientEvent → Bool
  | .print o => !o.starts
  | _ => true

/-- The connection to the reporter is opened or closed. -/
def ClientEvent.connects : ClientEvent → Bool
  | .socket _ | .connect _ | .fdopen _ | .fclose _ | .close _ => true
  | _ => false

abbrev Page {α : Type} (m : Client α) : Prop := Within (fun e => e.page = true) m

theorem page_emit {e : ClientEvent} (h : e.page = true) : Page (emit e : Client Unit) :=
  within_emit h

theorem within_clientCall {α : Type} {p : ClientEvent → Prop} {outcome : ClientAnswer → α}
    {event : α → ClientEvent} (h : ∀ r, p (event r)) : Within p (clientCall outcome event) := by
  unfold clientCall
  apply within_bind
  · exact within_ask
  · intro a
    exact within_bind (within_emit (h _)) fun _ => within_pure _

theorem page_clientCall {α : Type} {outcome : ClientAnswer → α} {event : α → ClientEvent}
    (h : ∀ r, (event r).page = true) : Page (clientCall outcome event) :=
  within_clientCall h

theorem page_of_connects (e : ClientEvent) (h : e.connects = true) : e.page = true := by
  cases e <;> first | rfl | contradiction

theorem page_readReply (stop : Bytes → Option Int) : Page (readReply stop) := by
  apply within_loop
  intro _
  unfold replyStep
  apply within_bind (page_clientCall fun _ => rfl)
  intro r
  split
  · exact within_pure _
  · split <;> exact within_pure _

theorem within_mcrBail (c : McrStream) (err : Int) :
    Within (·.connects = true) (mcrBail c err) := by
  unfold mcrBail closeStream closeDescriptor
  apply within_bind
  · split
    · exact within_emit rfl
    · exact within_pure _
  · intro _
    apply within_bind
    · split
      · exact within_emit rfl
      · exact within_pure _
    · intro _
      exact within_pure _

theorem within_mcrConnectRemote : Within (·.connects = true) mcrConnectRemote := by
  unfold mcrConnectRemote
  apply within_bind
  · exact within_clientCall fun _ => rfl
  · intro r
    cases r with
    | error e => exact within_pure _
    | ok fd =>
      apply within_bind
      · exact within_clientCall fun _ => rfl
      · intro r
        cases r with
        | error e => exact within_pure _
        | ok _ =>
          apply within_bind
          · exact within_clientCall fun _ => rfl
          · exact fun opened => within_pure _

theorem page_mcrCommand {cmd : Bytes} {reply : Client Int} (hreply : Page reply) :
    Page (mcrCommand cmd reply) := by
  unfold mcrCommand
  have hbail : ∀ c err, Page (mcrBail c err) :=
    fun c err => (within_mcrBail c err).imp page_of_connects
  apply within_bind (within_mcrConnectRemote.imp page_of_connects)
  intro c
  split
  · exact hbail _ _
  · split
    · apply within_bind (page_emit rfl)
      intro _
      exact within_bind hreply fun err => hbail _ _
    · exact within_bind (page_emit rfl) fun _ => within_halt

theorem page_withReporter {m : Client Int} (hm : Page m) : Page (withReporter m) := by
  unfold withReporter mcrGetAddr
  apply within_bind
  · apply within_bind (page_clientCall fun _ => rfl)
    intro r
    cases r <;> exact within_pure _
  · intro err
    split
    · exact within_bind (page_emit rfl) fun _ => within_pure _
    · exact hm

theorem page_reportPage {m : Client Int} (hm : Page m) : Page (reportPage m) := by
  unfold reportPage
  apply within_bind hm
  intro err
  split
  · exact within_pure _
  · exact within_bind (page_emit rfl) fun _ => within_pure _

theorem page_config : Page writeHtmlMcrConfig := by
  apply page_withReporter
  apply page_reportPage
  apply within_bind (page_clientCall fun _ => rfl)
  intro r
  cases r with
  | error e => exact within_pure _
  | ok fd => exact page_mcrCommand (page_readReply _)

theorem page_topKeys (dotquad : Bytes) (port : Nat) (op : Bytes) (mcrtime nkeys : Nat) :
    Page (writeHtmlMcrTopKeys dotquad port op mcrtime nkeys) :=
  page_withReporter (page_reportPage (page_mcrCommand (page_readReply _)))

theorem page_topClients (dotquad : Bytes) (port : Nat) (key : Bytes) (mcrtime nclnts : Nat) :
    Page (writeHtmlMcrTopClients dotquad port key mcrtime nclnts) :=
  page_withReporter (page_reportPage (page_mcrCommand (page_readReply _)))

theorem page_instanceOp (op addr : Bytes) (port : Nat) : Page (mcrInstanceOp op addr port) := by
  apply page_mcrCommand
  apply within_bind (page_clientCall fun _ => rfl)
  intro r
  cases r <;> exact within_pure _

theorem page_mcrOp (op addr : Bytes) (port : Nat) : Page (mcrOp op addr port) :=
  page_withReporter (page_instanceOp op addr port)

theorem page_endPage (err : Int) (message : Bytes) : Page (endPage err message) := by
  unfold endPage errorText
  apply within_bind
  · split
    · exact page_emit rfl
    · exact within_pure _
  · intro _
    exact page_emit rfl

end StatsProxy
