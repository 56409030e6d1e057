import Mathlib.Algebra.BigOperators.Group.Finset.Basic
import Mathlib.Algebra.Order.BigOperators.Group.List
import StatsProxy.Library.TailQueue
import StatsProxy.StatsText

/-! The stats lists as the process keeps them: tail queues of allocated entries that point
to allocated texts. Each function of the poller that builds, frees or moves entries does to
these what the lists of the model say, and every block that is not in a list is free. -/
namespace StatsProxy.StatsMemory
open CString Separation TailQueue
open scoped BigOperators

/-- The heads of lists: that of a uri, and the variable `new_stats` of `getStat`. -/
inductive StatsHead where
  | uri (i : Nat)
  | newStats
deriving DecidableEq

/-- The union `v`, with the block of a `valueStr`. -/
inductive StatsV where
  | uint64 (value : Nat)
  | alpha (valueStr : Nat)
deriving DecidableEq

structure StatsBlock where
  name : Nat
  v : StatsV
deriving DecidableEq

/-- Blocks are entries or texts. -/
abbrev StatsCode (β : Type) := Code StatsHead StatsBlock Bytes β
abbrev StatsClaim := Claim StatsHead StatsBlock Bytes

def strdup (text : Bytes) : StatsCode Nat := alloc (.other text)

def readText (p : Nat) : StatsCode Bytes := do
  match ← read (.block p) with
  | .other text => return text
  | _ => undefined

def newStatEntry (name : Nat) (v : StatsV) : StatsCode Nat := alloc (.node ⟨none, none, ⟨name, v⟩⟩)

/-- The name and the value of a line; half a result is freed. -/
def spMemcacheStatsParseBasic (str : Bytes) : StatsCode (Option (Nat × Nat)) :=
  match strtokR (ascii " ") str with
  | none => return none
  | some (tok, save) => do
    let name ← strdup tok
    match strtokR (ascii " ") save with
    | some (tok, _) =>
      let value ← strdup tok
      return some (name, value)
    | none =>
      free name
      return none

def addStat (res : Bytes) : StatsCode Unit := do
  match ← spMemcacheStatsParseBasic (rawStat res) with
  | some (statName, statVal) =>
    let entry ← newStatEntry statName (.alpha statVal)
    insertTail .newStats entry
  | none => return ()

def spMemcacheStatsAddStats (statsInput : Bytes) : StatsCode Unit :=
  match _h : strtokR (ascii "\r\n") statsInput with
  | none => return ()
  | some (res, save) => do
    addStat res
    spMemcacheStatsAddStats save
termination_by statsInput.length
decreasing_by exact strtokR_length _h

def freeValue : StatsV → StatsCode Unit
  | .alpha valueStr => free valueStr
  | .uint64 _ => return ()

/-- The loop of `removeOldStats`, within so many steps. -/
def freeEntries : Nat → Option Nat → StatsCode Unit
  | 0, _ => undefined
  | _+1, none => return ()
  | steps+1, some entry => do
    let tmp ← next entry
    let node ← readNode entry
    free node.value.name
    freeValue node.value.v
    free entry
    freeEntries steps tmp

def removeOldStats (steps : Nat) (q : StatsHead) : StatsCode Unit := do
  let entry ← first q
  freeEntries steps entry
  init q

/-- Within so many steps. -/
def addNewStats (i : Nat) : Nat → StatsCode Unit
  | 0 => undefined
  | steps+1 => do
    match ← first .newStats with
    | none => return ()
    | some entry =>
      remove .newStats entry
      insertTail (.uri i) entry
      addNewStats i steps

/-- The buffers of `sp_memcache_read_replies`, one after the other. -/
def addBuffers : List Bytes → StatsCode Unit
  | [] => return ()
  | buffer :: buffers => do
    spMemcacheStatsAddStats (cString buffer)
    addBuffers buffers

/-- What `getStat` does to the lists when the command has been sent. -/
def getStat (steps i : Nat) (buffers : List Bytes) : StatsCode Unit := do
  init .newStats
  addBuffers buffers
  removeOldStats steps (.uri i)
  addNewStats i steps

/-- What `getHealth` does to them from its label `fail` on. -/
def getHealth (steps i pollDelta : Nat) (polltimeBuf : Bytes) (livenessVal livenessDelta : Nat) :
    StatsCode Unit := do
  let polltimeBuf ← alloc (.other polltimeBuf)
  let name ← strdup (ascii "liveness")
  let liveness ← newStatEntry name (.uint64 livenessVal)
  let name ← strdup (ascii "respTimeMs")
  let livenessResp ← newStatEntry name (.uint64 livenessDelta)
  let name ← strdup (ascii "statsAge")
  let lastpollInt ← newStatEntry name (.uint64 pollDelta)
  let name ← strdup (ascii "lastpoll")
  let lastpoll ← newStatEntry name (.alpha polltimeBuf)
  removeOldStats steps (.uri i)
  insertTail (.uri i) lastpollInt
  insertTail (.uri i) lastpoll
  insertTail (.uri i) liveness
  insertTail (.uri i) livenessResp

def textCell (p : Nat) (text : Bytes) : StatsClaim := cell (.block p) (.other text)

def ownsValue : StatsV → StatsValue → StatsClaim
  | .uint64 value, .uint64 value' => fact (value = value')
  | .alpha p, .alpha valueStr => textCell p valueStr
  | _, _ => fact False

/-- The texts of an entry. -/
def owns (block : StatsBlock) (entry : StatsEntry) : StatsClaim :=
  textCell block.name entry.name * ownsValue block.v entry.v

/-- The texts of the entries of a list. -/
def ownsAll : List (Nat × StatsBlock) → List StatsEntry → StatsClaim
  | [], [] => 1
  | (_, block) :: elms, entry :: stats => owns block entry * ownsAll elms stats
  | _, _ => fact False

/-- An entry with its texts that is in no list. -/
def loose (p : Nat) (entry : StatsEntry) : StatsClaim :=
  any fun node => nodeCell p node * owns node.value entry

/-- A head, its entries and their texts. -/
def statsList (q : StatsHead) (stats : List StatsEntry) : StatsClaim :=
  any fun elms => queue q elms * ownsAll elms stats

/-- The lists of `n` uris. -/
def uriLists (n : Nat) (stats : Nat → List StatsEntry) : StatsClaim :=
  ∏ i ∈ Finset.range n, statsList (.uri i) (stats i)

section

variable {P R : StatsClaim} {S : β → StatsClaim} {q : StatsHead}
  {elms : List (Nat × StatsBlock)} {stats : List StatsEntry}

theorem ownsAll_append (elms' : List (Nat × StatsBlock)) (stats' : List StatsEntry) :
    ownsAll elms stats * ownsAll elms' stats' ≤ ownsAll (elms ++ elms') (stats ++ stats') := by
  induction elms generalizing stats with
  | nil =>
    cases stats with
    | nil => exact le_of_eq (one_mul _)
    | cons entry stats =>
      show fact False * _ ≤ _
      rw [fact_false]
      exact fun s h => h.1.elim
  | cons x elms ih =>
    obtain ⟨p, block⟩ := x
    cases stats with
    | nil =>
      show fact False * _ ≤ _
      rw [fact_false]
      exact fun s h => h.1.elim
    | cons entry stats =>
      show owns block entry * ownsAll elms stats * ownsAll elms' stats' ≤
        owns block entry * ownsAll (elms ++ elms') (stats ++ stats')
      rw [mul_assoc]
      exact mul_le_mul_right ih _

theorem triple_readText {p : Nat} {text : Bytes} {k : Bytes → StatsCode β}
    (h : Triple (textCell p text * P) (k text) S) :
    Triple (textCell p text * P) (readText p >>= k) S := by
  unfold readText
  rw [bind_assoc]
  exact triple_read h

/-- The two texts of a line that has been parsed. -/
def parsed : Option (Bytes × Bytes) → Option (Nat × Nat) → StatsClaim
  | some (name, value), some (statName, statVal) => textCell statName name * textCell statVal value
  | none, none => 1
  | _, _ => fact False

theorem triple_parseBasic (str : Bytes) :
    Triple 1 (spMemcacheStatsParseBasic str)
      (parsed (StatsProxy.spMemcacheStatsParseBasic str)) := by
  rw [parseBasic_eq_strtokR]
  unfold spMemcacheStatsParseBasic
  cases strtokR (ascii " ") str with
  | none => exact triple_pure (le_refl _)
  | some first =>
    obtain ⟨tok, save⟩ := first
    dsimp only
    apply triple_alloc
    intro name
    cases strtokR (ascii " ") save with
    | none =>
      apply triple_free
      exact triple_pure (le_refl _)
    | some second =>
      apply triple_alloc
      intro value
      apply triple_pure
      rw [mul_one, mul_comm]
      exact le_refl _

theorem statsList_intro (elms : List (Nat × StatsBlock)) :
    queue q elms * ownsAll elms stats ≤ statsList q stats :=
  le_any (P := fun elms => queue q elms * ownsAll elms stats) elms

/-- No execution starts from what is impossible. -/
theorem triple_false {c : StatsCode β} : Triple (fact False * P) c S :=
  triple_fact False.elim

theorem queue_nil_le (q : StatsHead) : queue q [] ≤ statsList q [] := by
  apply le_trans _ (statsList_intro [])
  exact le_of_eq (mul_one _).symm

theorem loose_intro (p : Nat) (node : Node StatsHead StatsBlock) (entry : StatsEntry) :
    nodeCell p node * owns node.value entry ≤ loose p entry :=
  le_any (P := fun node => nodeCell p node * owns node.value entry) node

/-- An entry takes over its texts. -/
theorem triple_newStatEntry {n : Nat} (name : Bytes) {v : StatsV} (value : StatsValue)
    {k : Nat → StatsCode β} (h : ∀ p, Triple (loose p ⟨name, value⟩ * P) (k p) S) :
    Triple (textCell n name * ownsValue v value * P) (newStatEntry n v >>= k) S := by
  apply triple_alloc
  intro p
  apply (h p).pre
  rw [← mul_assoc]
  exact mul_le_mul_left (loose_intro p ⟨none, none, ⟨n, v⟩⟩ ⟨name, value⟩) _

/-- A list takes over an entry. -/
theorem triple_insertEntry (p : Nat) (stats : List StatsEntry) (entry : StatsEntry) :
    Triple (statsList q stats * loose p entry) (insertTail q p)
      fun _ => statsList q (stats ++ [entry]) := by
  rw [statsList, any_mul]
  apply triple_any
  intro elms
  rw [loose, mul_comm, any_mul]
  apply triple_any
  intro node
  have hinsert := (triple_insertTail (τ := Bytes) (q := q) (p := p) elms node).frame
    (ownsAll elms stats * owns node.value entry)
  apply (hinsert.pre (le_of_eq (by ac_rfl))).post
  intro _
  apply le_trans _ (statsList_intro (elms ++ [(p, node.value)]))
  apply mul_le_mul_right
  apply le_trans _ (ownsAll_append [(p, node.value)] [entry])
  show _ ≤ ownsAll elms stats * (owns node.value entry * 1)
  rw [mul_one]

/-- A line adds its entry, if it has one. -/
theorem triple_addStat (stats : List StatsEntry) (res : Bytes) :
    Triple (statsList .newStats stats) (addStat res)
      fun _ => statsList .newStats (stats ++ (lineEntry res).toList) := by
  unfold addStat
  rw [← one_mul (statsList _ _)]
  apply triple_call (triple_parseBasic _)
  intro r
  unfold lineEntry
  cases StatsProxy.spMemcacheStatsParseBasic (rawStat res) with
  | none =>
    cases r with
    | none =>
      apply triple_pure
      rw [Option.map_none, Option.toList_none, List.append_nil]
      exact le_of_eq (one_mul _)
    | some found => exact triple_false
  | some words =>
    cases r with
    | none => exact triple_false
    | some found =>
      obtain ⟨name, value⟩ := words
      obtain ⟨statName, statVal⟩ := found
      apply triple_newStatEntry (v := .alpha statVal) name (.alpha value)
      intro p
      rw [mul_comm]
      exact triple_insertEntry p stats ⟨name, .alpha value⟩

theorem triple_addStats (stats : List StatsEntry) (statsInput : Bytes) :
    Triple (statsList .newStats stats) (spMemcacheStatsAddStats statsInput)
      fun _ => statsList .newStats
        (stats ++ (strtok (ascii "\r\n") statsInput).filterMap lineEntry) := by
  induction statsInput using spMemcacheStatsAddStats.induct generalizing stats with
  | case1 statsInput h =>
    rw [spMemcacheStatsAddStats, strtok_eq_strtokR, h]
    apply triple_pure
    rw [List.filterMap_nil, List.append_nil]
  | case2 statsInput res save h ih =>
    rw [spMemcacheStatsAddStats, strtok_eq_strtokR, h]
    apply triple_bind (triple_addStat stats res)
    intro _
    have hrest := ih (stats ++ (lineEntry res).toList)
    rw [List.append_assoc] at hrest
    rw [List.filterMap_cons]
    cases hline : lineEntry res with
    | none => rwa [hline] at hrest
    | some entry => rwa [hline] at hrest

theorem triple_addBuffers (stats : List StatsEntry) (buffers : List Bytes) :
    Triple (statsList .newStats stats) (addBuffers buffers)
      fun _ => statsList .newStats
        (stats ++ buffers.flatMap StatsProxy.spMemcacheStatsAddStats) := by
  induction buffers generalizing stats with
  | nil =>
    apply triple_pure
    rw [List.flatMap_nil, List.append_nil]
  | cons buffer buffers ih =>
    apply triple_bind (triple_addStats stats (cString buffer))
    intro _
    rw [List.flatMap_cons, ← List.append_assoc]
    exact ih _

theorem triple_freeValue (v : StatsV) (value : StatsValue) :
    Triple (ownsValue v value) (freeValue v) fun _ => 1 := by
  cases v with
  | uint64 n =>
    cases value with
    | uint64 n' =>
      apply triple_pure
      exact fun s h => h.2
    | alpha valueStr =>
      show Triple (fact False) _ _
      rw [← mul_one (fact False)]
      exact triple_false
  | alpha p =>
    cases value with
    | uint64 n' =>
      show Triple (fact False) _ _
      rw [← mul_one (fact False)]
      exact triple_false
    | alpha valueStr =>
      rw [ownsValue, ← mul_one (textCell p valueStr), freeValue, ← bind_pure (free p)]
      exact triple_free (triple_pure (le_refl _))

/-- All blocks of the entries are freed. -/
theorem triple_freeEntries (link : Link StatsHead) (steps : Nat) (hsteps : elms.length < steps) :
    Triple (segment link elms none * ownsAll elms stats) (freeEntries steps (firstOf elms none))
      fun _ => 1 := by
  induction elms generalizing link steps stats with
  | nil =>
    obtain ⟨steps, rfl⟩ := Nat.exists_eq_add_of_lt hsteps
    cases stats with
    | nil => exact triple_pure (le_of_eq (mul_one _))
    | cons entry stats =>
      rw [segment_nil, mul_comm]
      exact triple_false
  | cons x elms ih =>
    obtain ⟨p, ⟨name, v⟩⟩ := x
    obtain ⟨steps, rfl⟩ := Nat.exists_eq_add_of_lt (Nat.zero_lt_of_lt hsteps)
    rw [Nat.zero_add] at hsteps ⊢
    cases stats with
    | nil =>
      rw [mul_comm]
      exact triple_false
    | cons entry stats =>
      have hnode : segment link ((p, ⟨name, v⟩) :: elms) none *
          ownsAll ((p, ⟨name, v⟩) :: elms) (entry :: stats) =
          nodeCell p ⟨firstOf elms none, some link, ⟨name, v⟩⟩ * (textCell name entry.name *
            (ownsValue v entry.v * (segment (.next p) elms none * ownsAll elms stats))) := by
        rw [segment_cons, ownsAll, owns]
        ac_rfl
      rw [hnode]
      apply triple_next
      apply triple_readNode
      rw [mul_left_comm]
      apply triple_free
      rw [mul_left_comm]
      apply triple_call (triple_freeValue v entry.v)
      intro _
      rw [one_mul]
      apply triple_free
      exact ih (.next p) steps (Nat.lt_of_succ_lt_succ hsteps)

theorem ownsAll_length {s : Store (Address StatsHead) (Cell StatsHead StatsBlock Bytes)}
    (h : (P * ownsAll elms stats).Holds s) : elms.length = stats.length := by
  induction elms generalizing stats P with
  | nil =>
    cases stats with
    | nil => rfl
    | cons entry stats =>
      rw [mul_comm] at h
      exact (fact_mul.mp h).1.elim
  | cons x elms ih =>
    cases stats with
    | nil =>
      rw [mul_comm] at h
      exact (fact_mul.mp h).1.elim
    | cons entry stats =>
      obtain ⟨p, block⟩ := x
      rw [ownsAll, ← mul_assoc] at h
      rw [List.length_cons, List.length_cons, ih h]

/-- The entries of a list are as many as the model says. -/
theorem triple_statsList {c : StatsCode β}
    (h : ∀ elms, elms.length = stats.length → Triple (queue q elms * ownsAll elms stats * R) c S) :
    Triple (statsList q stats * R) c S := by
  intro m R' hm
  rw [statsList, any_mul, any_mul] at hm
  obtain ⟨elms, helms⟩ := hm
  apply h elms _ m R' helms
  apply ownsAll_length (P := queue q elms * (R * R'))
  have hsplit : queue q elms * (R * R') * ownsAll elms stats =
      queue q elms * ownsAll elms stats * R * R' := by ac_rfl
  rw [hsplit]
  exact helms

/-- The old entries are gone with their texts. -/
theorem triple_removeOldStats {steps : Nat} (hsteps : stats.length < steps) :
    Triple (statsList q stats) (removeOldStats steps q) fun _ => statsList q [] := by
  rw [← mul_one (statsList q stats)]
  apply triple_statsList
  intro elms hlen
  unfold removeOldStats
  rw [mul_one, queue, mul_assoc]
  apply triple_first
  rw [mul_comm]
  apply triple_call (triple_freeEntries (.first q) steps (hlen ▸ hsteps))
  intro _
  rw [one_mul]
  apply triple_init.post
  exact fun _ => queue_nil_le q

/-- The new entries are moved behind the others one after the other. -/
theorem triple_addNewStats (i : Nat) {steps : Nat} (new : List StatsEntry)
    (hsteps : new.length < steps) :
    Triple (statsList (.uri i) stats * statsList .newStats new) (addNewStats i steps)
      fun _ => statsList (.uri i) (stats ++ new) * statsList .newStats [] := by
  induction new generalizing stats steps with
  | nil =>
    obtain ⟨steps, rfl⟩ := Nat.exists_eq_add_of_lt hsteps
    rw [mul_comm]
    apply triple_statsList
    intro elms hlen
    obtain rfl := List.eq_nil_of_length_eq_zero hlen
    rw [addNewStats, mul_assoc]
    apply triple_firstOf
    apply triple_pure
    rw [List.append_nil, mul_comm (statsList (.uri i) stats), ← mul_assoc]
    exact mul_le_mul_left (statsList_intro []) _
  | cons entry new ih =>
    obtain ⟨steps, rfl⟩ := Nat.exists_eq_add_of_lt (Nat.zero_lt_of_lt hsteps)
    rw [Nat.zero_add] at hsteps ⊢
    rw [mul_comm]
    apply triple_statsList
    intro news hlen
    cases news with
    | nil => contradiction
    | cons x news =>
      obtain ⟨p, block⟩ := x
      rw [addNewStats, mul_assoc]
      apply triple_firstOf
      have hremove := triple_remove (τ := Bytes) (q := StatsHead.newStats) (p := p) [] news block
      apply triple_call hremove
      intro _
      have hinsert := triple_insertEntry (q := .uri i) p stats entry
      refine (triple_call (R := queue .newStats news * ownsAll news new) hinsert
        fun _ => ?_).pre ?_
      · have hmoved := @ih (stats ++ [entry]) _ (Nat.lt_of_succ_lt_succ hsteps)
        rw [List.append_assoc] at hmoved
        exact hmoved.pre (mul_le_mul_right (statsList_intro news) _)
      · apply le_trans _ (mul_le_mul_left (mul_le_mul_right (loose_intro p
          ⟨firstOf news none, some (.first .newStats), block⟩ entry) _) _)
        rw [List.nil_append, ownsAll, endLink_nil]
        exact le_of_eq (by ac_rfl)

/-- The variable, whatever it holds. -/
def newStatsCell : StatsClaim := any fun head => headCell .newStats head

theorem statsList_newStats : statsList .newStats [] ≤ newStatsCell := by
  rintro s ⟨elms, h⟩
  obtain rfl := List.eq_nil_of_length_eq_zero (ownsAll_length h)
  refine ⟨⟨none, some (.first .newStats)⟩, ?_⟩
  change (queue .newStats [] * 1 : StatsClaim).Holds s at h
  rw [queue, mul_one, segment_nil, mul_one] at h
  exact h

/-- The list of the uri is replaced by what the buffers have. -/
theorem triple_getStat (i : Nat) (buffers : List Bytes) {steps : Nat}
    (hold : stats.length < steps)
    (hnew : (buffers.flatMap StatsProxy.spMemcacheStatsAddStats).length < steps) :
    Triple (newStatsCell * statsList (.uri i) stats) (getStat steps i buffers)
      fun _ => newStatsCell *
        statsList (.uri i) (buffers.flatMap StatsProxy.spMemcacheStatsAddStats) := by
  unfold getStat newStatsCell
  rw [any_mul]
  apply triple_any
  intro head
  apply triple_call triple_init
  intro _
  refine Triple.pre (triple_call (triple_addBuffers [] buffers) fun _ => ?_)
    (mul_le_mul_left (queue_nil_le _) _)
  rw [List.nil_append, mul_comm]
  apply triple_call (triple_removeOldStats hold)
  intro _
  apply (triple_addNewStats i _ hnew).post
  intro _
  rw [mul_comm]
  exact mul_le_mul_left statsList_newStats _

/-- The entries of a health check. -/
def healthEntries (pollDelta : Nat) (polltimeBuf : Bytes) (livenessVal livenessDelta : Nat) :
    List StatsEntry := [
  ⟨ascii "statsAge", .uint64 pollDelta⟩,
  ⟨ascii "lastpoll", .alpha polltimeBuf⟩,
  ⟨ascii "liveness", .uint64 livenessVal⟩,
  ⟨ascii "respTimeMs", .uint64 livenessDelta⟩]

/-- A number is stored in the entry itself. -/
theorem triple_newNumber {name : Bytes} {value : Nat} {k : Nat → StatsCode β}
    (h : ∀ p, Triple (loose p ⟨name, .uint64 value⟩ * P) (k p) S) :
    Triple P (strdup name >>= fun n => newStatEntry n (.uint64 value) >>= k) S := by
  apply triple_alloc
  intro n
  have hentry := triple_newStatEntry (n := n) (v := .uint64 value) _ _ h
  rw [mul_right_comm] at hentry
  apply hentry.pre
  intro s hs
  rw [mul_comm]
  exact fact_mul.mpr ⟨rfl, hs⟩

/-- Four entries take the place of the old ones. -/
theorem triple_replace {first second third fourth : StatsEntry} (p₁ p₂ p₃ p₄ : Nat) {steps : Nat}
    (hold : stats.length < steps) :
    Triple (statsList q stats * (loose p₁ first * (loose p₂ second *
        (loose p₃ third * loose p₄ fourth))))
      (do
        removeOldStats steps q
        insertTail q p₁
        insertTail q p₂
        insertTail q p₃
        insertTail q p₄)
      fun _ => statsList q [first, second, third, fourth] := by
  apply triple_call (triple_removeOldStats hold)
  intro _
  rw [← mul_assoc]
  apply triple_call (triple_insertEntry p₁ _ _)
  intro _
  rw [← mul_assoc]
  apply triple_call (triple_insertEntry p₂ _ _)
  intro _
  rw [← mul_assoc]
  apply triple_call (triple_insertEntry p₃ _ _)
  intro _
  exact triple_insertEntry p₄ _ _

theorem triple_getHealth (i pollDelta : Nat) (polltimeBuf : Bytes)
    (livenessVal livenessDelta : Nat) {steps : Nat} (hold : stats.length < steps) :
    Triple (statsList (.uri i) stats)
      (getHealth steps i pollDelta polltimeBuf livenessVal livenessDelta)
      fun _ => statsList (.uri i)
        (healthEntries pollDelta polltimeBuf livenessVal livenessDelta) := by
  unfold getHealth
  apply triple_alloc
  intro buf
  apply triple_newNumber
  intro liveness
  apply triple_newNumber
  intro livenessResp
  apply triple_newNumber
  intro lastpollInt
  apply triple_alloc
  intro n
  apply (triple_newStatEntry (ascii "lastpoll") (v := .alpha buf) (.alpha polltimeBuf)
    (P := statsList (.uri i) stats *
      (loose lastpollInt ⟨ascii "statsAge", .uint64 pollDelta⟩ *
        (loose liveness ⟨ascii "liveness", .uint64 livenessVal⟩ *
          loose livenessResp ⟨ascii "respTimeMs", .uint64 livenessDelta⟩))) fun lastpoll =>
    (triple_replace lastpollInt lastpoll liveness livenessResp hold).pre
      (le_of_eq (by ac_rfl))).pre
  rw [ownsValue, textCell, textCell]
  exact le_of_eq (by ac_rfl)

/-- What is read for a uri before its list is replaced. -/
inductive Poll where
  | stat (i : Nat) (buffers : List Bytes)
  | health (i pollDelta : Nat) (polltimeBuf : Bytes) (livenessVal livenessDelta : Nat)

def Poll.uri : Poll → Nat
  | .stat i _ => i
  | .health i _ _ _ _ => i

/-- The poll is of a configured uri; `health` is checked, and no other. -/
def Poll.Of (uris : List Bytes) : Poll → Prop
  | .stat i _ => ∃ uri, uris[i]? = some uri ∧ uri ≠ ascii "health"
  | .health i .. => uris[i]? = some (ascii "health")

/-- The list that is published. -/
def Poll.entries : Poll → List StatsEntry
  | .stat _ buffers => buffers.flatMap StatsProxy.spMemcacheStatsAddStats
  | .health _ pollDelta polltimeBuf livenessVal livenessDelta =>
    healthEntries pollDelta polltimeBuf livenessVal livenessDelta

def Poll.code (steps : Nat) : Poll → StatsCode Unit
  | .stat i buffers => getStat steps i buffers
  | .health i pollDelta polltimeBuf livenessVal livenessDelta =>
    getHealth steps i pollDelta polltimeBuf livenessVal livenessDelta

def pollsCode (steps : Nat) : List Poll → StatsCode Unit
  | [] => return ()
  | poll :: polls => do
    poll.code steps
    pollsCode steps polls

/-- The lists when another one is published. -/
def Poll.publish (stats : Nat → List StatsEntry) (poll : Poll) : Nat → List StatsEntry :=
  Function.update stats poll.uri poll.entries

theorem Poll.Of.lt {uris : List Bytes} {poll : Poll} (h : poll.Of uris) :
    poll.uri < uris.length := by
  cases poll with
  | stat i buffers =>
    obtain ⟨uri, huri, -⟩ := h
    exact (List.getElem?_eq_some_iff.mp huri).1
  | health i => exact (List.getElem?_eq_some_iff.mp h).1

theorem triple_poll (poll : Poll) {steps : Nat} (hold : stats.length < steps)
    (hnew : poll.entries.length < steps) :
    Triple (newStatsCell * statsList (.uri poll.uri) stats) (poll.code steps)
      fun _ => newStatsCell * statsList (.uri poll.uri) poll.entries := by
  cases poll with
  | stat i buffers => exact triple_getStat i buffers hold hnew
  | health i pollDelta polltimeBuf livenessVal livenessDelta =>
    rw [mul_comm]
    apply ((triple_getHealth i pollDelta polltimeBuf livenessVal livenessDelta hold).frame _).post
    exact fun _ => le_of_eq (mul_comm _ _)

/-- A poll touches no other list. -/
theorem triple_pollLists {n : Nat} (lists : Nat → List StatsEntry) (poll : Poll) {steps : Nat}
    (hi : poll.uri < n) (hold : (lists poll.uri).length < steps)
    (hnew : poll.entries.length < steps) :
    Triple (newStatsCell * uriLists n lists) (poll.code steps)
      fun _ => newStatsCell * uriLists n (poll.publish lists) := by
  have hmem : poll.uri ∈ Finset.range n := Finset.mem_range.mpr hi
  unfold uriLists
  rw [← Finset.mul_prod_erase _ _ hmem, ← mul_assoc]
  apply ((triple_poll poll hold hnew).frame _).post
  intro _
  apply le_of_eq
  rw [← Finset.mul_prod_erase _ _ hmem, ← mul_assoc]
  congr 1
  · rw [Poll.publish, Function.update_self]
  · apply Finset.prod_congr rfl
    intro j hj
    rw [Poll.publish, Function.update_of_ne (Finset.ne_of_mem_erase hj)]

/-- And so do all polls, in whatever order. -/
theorem triple_polls {n : Nat} (lists : Nat → List StatsEntry) (polls : List Poll) {steps : Nat}
    (hi : ∀ poll ∈ polls, poll.uri < n) (hold : ∀ i, (lists i).length < steps)
    (hnew : ∀ poll ∈ polls, poll.entries.length < steps) :
    Triple (newStatsCell * uriLists n lists) (pollsCode steps polls)
      fun _ => newStatsCell * uriLists n (polls.foldl Poll.publish lists) := by
  induction polls generalizing lists with
  | nil => exact triple_pure (le_refl _)
  | cons poll polls ih =>
    rw [List.forall_mem_cons] at hi hnew
    apply triple_bind (triple_pollLists lists poll hi.1 (hold _) hnew.1)
    intro _
    apply ih (poll.publish lists) hi.2 _ hnew.2
    intro j
    by_cases hj : j = poll.uri
    · rw [hj, Poll.publish, Function.update_self]
      exact hnew.1
    · rw [Poll.publish, Function.update_of_ne hj]
      exact hold j

/-- The variables before the program starts: the heads of `n` uris are allocated. -/
def startStore : Nat → Store (Address StatsHead) (Cell StatsHead StatsBlock Bytes)
  | 0 => Function.update (fun _ => none) (.static .newStats) (some (.head ⟨none, none⟩))
  | n+1 => Function.update (startStore n) (.static (.uri n)) (some (.head ⟨none, none⟩))

theorem startStore_block (n p : Nat) : startStore n (.block p) = none := by
  induction n with
  | zero => exact Function.update_of_ne (by simp) ..
  | succ n ih =>
    rw [startStore, Function.update_of_ne (by simp)]
    exact ih

theorem startStore_uri {n i : Nat} (h : n ≤ i) : startStore n (.static (.uri i)) = none := by
  induction n with
  | zero => exact Function.update_of_ne (by simp) ..
  | succ n ih =>
    have hne : i ≠ n := by omega
    rw [startStore, Function.update_of_ne (by simpa using hne)]
    exact ih (by omega)

def startMemory (n : Nat) : Memory StatsHead (Cell StatsHead StatsBlock Bytes) where
  store := startStore n
  fresh := 0
  dead p _ := startStore_block n p

/-- The `TAILQ_INIT` of `addProxy` for each of `n` uris. -/
def initUris : Nat → StatsCode Unit
  | 0 => return ()
  | n+1 => do
    initUris n
    init (.uri n)

/-- The heads of `n` uris, before they are initialised. -/
def uriCells (n : Nat) : StatsClaim :=
  ∏ i ∈ Finset.range n, headCell (.uri i) ⟨none, none⟩

theorem startStore_holds (n : Nat) : (newStatsCell * uriCells n).Holds (startStore n) := by
  induction n with
  | zero =>
    rw [uriCells, Finset.range_zero, Finset.prod_empty, mul_one]
    refine ⟨⟨none, none⟩, Function.update_self .., fun a ha => ?_⟩
    exact Function.update_of_ne ha ..
  | succ n ih =>
    rw [uriCells, Finset.prod_range_succ, ← mul_assoc, mul_comm]
    exact cell_create ih (startStore_uri (Nat.le_refl n))

theorem triple_initUris (n : Nat) :
    Triple (uriCells n) (initUris n) fun _ => uriLists n fun _ => [] := by
  induction n with
  | zero => exact triple_pure (le_refl _)
  | succ n ih =>
    rw [uriCells, Finset.prod_range_succ]
    apply triple_call ih
    intro _
    rw [mul_comm]
    apply (triple_init.frame _).post
    intro _
    rw [mul_comm, uriLists, uriLists, Finset.prod_range_succ]
    exact mul_le_mul_right (queue_nil_le _) _

/-- Steps that are enough for all loops of these polls. -/
def enoughSteps (polls : List Poll) : Nat := (polls.map fun poll => poll.entries.length + 1).sum + 1

theorem entries_enoughSteps {polls : List Poll} {poll : Poll} (h : poll ∈ polls) :
    poll.entries.length < enoughSteps polls := by
  have hle : poll.entries.length + 1 ≤ (polls.map fun poll => poll.entries.length + 1).sum :=
    List.single_le_sum (fun _ _ => Nat.zero_le _) _ (List.mem_map_of_mem h)
  unfold enoughSteps
  omega

theorem enoughSteps_pos (polls : List Poll) : 0 < enoughSteps polls := Nat.succ_pos _

/-- No list is longer than that. -/
theorem published_enoughSteps (polls : List Poll) (i : Nat) :
    (polls.foldl Poll.publish (fun _ => []) i).length < enoughSteps polls := by
  have hfold : ∀ (later : List Poll) (lists : Nat → List StatsEntry), later ⊆ polls →
      (∀ i, (lists i).length < enoughSteps polls) →
      (later.foldl Poll.publish lists i).length < enoughSteps polls := by
    intro later
    induction later with
    | nil => exact fun lists _ hlists => hlists i
    | cons poll later ih =>
      intro lists hsub hlists
      rw [List.cons_subset] at hsub
      apply ih (poll.publish lists) hsub.2
      intro j
      by_cases hj : j = poll.uri
      · rw [hj, Poll.publish, Function.update_self]
        exact entries_enoughSteps hsub.1
      · rw [Poll.publish, Function.update_of_ne hj]
        exact hlists j
  exact hfold polls _ (List.Subset.refl _) fun _ => enoughSteps_pos polls

/-- Everything from the start on: the lists of all uris, and the variable. -/
theorem triple_started (n : Nat) (polls : List Poll) (hi : ∀ poll ∈ polls, poll.uri < n)
    (more : Nat) :
    Triple (newStatsCell * uriCells n)
      (do initUris n; pollsCode (enoughSteps polls + more) polls)
      fun _ => newStatsCell * uriLists n (polls.foldl Poll.publish fun _ => []) := by
  rw [mul_comm]
  apply triple_call (triple_initUris n)
  intro _
  rw [mul_comm]
  exact triple_polls (fun _ => []) polls hi
    (fun _ => Nat.lt_of_lt_of_le (enoughSteps_pos polls) (Nat.le_add_right _ more))
    fun poll hmem => Nat.lt_of_lt_of_le (entries_enoughSteps hmem) (Nat.le_add_right _ more)

end

end StatsProxy.StatsMemory
