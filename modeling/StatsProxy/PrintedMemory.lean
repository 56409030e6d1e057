import StatsProxy.PollerMemory

/-! What a telnet client is sent, read from the allocated entries. The loops of
`rawPrintStats` and `countStat` find each entry and each text, change nothing and print the
text of the list. -/
namespace StatsProxy.StatsMemory
open CString Separation TailQueue
open scoped BigOperators

def countStat (steps : Nat) (q : StatsHead) (name : Nat) : StatsCode Nat :=
  forEach steps q 0 fun entry count => do
    let node ← readNode entry
    let entryName ← readText node.value.name
    let name ← readText name
    return if entryName = name then count + 1 else count

def readValue : StatsV → StatsCode StatsValue
  | .uint64 value => return .uint64 value
  | .alpha p => do
    let valueStr ← readText p
    return .alpha valueStr

/-- The text for the client, and the names that are logged as duplicates. -/
structure Printed where
  text : Bytes
  dupes : List Bytes
deriving DecidableEq

def printStat (steps : Nat) (q : StatsHead) (entry : Nat) (printed : Printed) :
    StatsCode Printed := do
  let node ← readNode entry
  let count ← countStat steps q node.value.name
  let name ← readText node.value.name
  let v ← readValue node.value.v
  return {
    text := printed.text ++ (statLine ⟨name, v⟩ ++ ascii "\r\n")
    dupes := printed.dupes ++ if 1 < count then [name] else [] }

def rawPrintStats (steps : Nat) (q : StatsHead) : StatsCode Printed := do
  let printed ← forEach steps q ⟨[], []⟩ (printStat steps q)
  return { printed with text := printed.text ++ endMarker }

/-- How often a name is in a list. -/
def nameCount (name : Bytes) (stats : List StatsEntry) : Nat :=
  stats.countP fun entry => entry.name = name

/-- What is printed of some entries of a list. -/
def printedOf (all : List StatsEntry) (stats : List StatsEntry) : Printed where
  text := stats.flatMap fun entry => statLine entry ++ ascii "\r\n"
  dupes := stats.flatMap fun entry => if 1 < nameCount entry.name all then [entry.name] else []

section

variable {P : StatsClaim} {S : β → StatsClaim} {q : StatsHead} {elms : List (Nat × StatsBlock)}
  {stats : List StatsEntry} {steps : Nat}

theorem ownsAll_split {front back : List (Nat × StatsBlock)} {before after : List StatsEntry}
    (h : front.length = before.length) (p : Nat) (block : StatsBlock) (entry : StatsEntry) :
    ownsAll (front ++ (p, block) :: back) (before ++ entry :: after) =
      owns block entry * (ownsAll front before * ownsAll back after) := by
  induction front generalizing before with
  | nil =>
    obtain rfl := List.eq_nil_of_length_eq_zero h.symm
    show _ = _ * (1 * _)
    rw [one_mul]
    rfl
  | cons x front ih =>
    obtain ⟨p', block'⟩ := x
    cases before with
    | nil => contradiction
    | cons first before =>
      rw [List.cons_append, List.cons_append, ownsAll, ih (Nat.succ.inj h), ownsAll]
      ac_rfl

/-- An element of the queue and the entry it stands for. -/
structure At (elms : List (Nat × StatsBlock)) (stats : List StatsEntry)
    (front : List (Nat × StatsBlock)) (p : Nat) (block : StatsBlock) (entry : StatsEntry) :
    Prop where
  linked : ∃ back, elms = front ++ (p, block) :: back
  listed : ∃ after, stats = stats.take front.length ++ entry :: after
  aligned : front.length = (stats.take front.length).length

theorem at_of_length (hlen : elms.length = stats.length) {front back : List (Nat × StatsBlock)}
    {p : Nat} {block : StatsBlock} (helms : elms = front ++ (p, block) :: back) :
    ∃ entry, At elms stats front p block entry := by
  have hlt : front.length < stats.length := by
    rw [← hlen, helms, List.length_append, List.length_cons]
    omega
  refine ⟨stats[front.length], ⟨back, helms⟩, ⟨stats.drop (front.length + 1), ?_⟩, ?_⟩
  · rw [← List.drop_eq_getElem_cons hlt, List.take_append_drop]
  · rw [List.length_take, Nat.min_eq_left hlt.le]

/-- The entries up to the next one. -/
theorem At.take_succ {front : List (Nat × StatsBlock)} {p : Nat} {block : StatsBlock}
    {entry : StatsEntry} (h : At elms stats front p block entry) :
    stats.take (front ++ [(p, block)]).length = stats.take front.length ++ [entry] := by
  obtain ⟨after, hstats⟩ := h.listed
  have hlen := h.aligned
  rw [List.length_append, List.length_singleton]
  conv_lhs => rw [hstats]
  rw [List.take_append, ← hlen, Nat.add_sub_cancel_left, List.take_of_length_le (by omega)]
  rfl

theorem At.owns {front : List (Nat × StatsBlock)} {p : Nat} {block : StatsBlock}
    {entry : StatsEntry} (h : At elms stats front p block entry) :
    ∃ R, ownsAll elms stats = StatsMemory.owns block entry * R := by
  obtain ⟨back, helms⟩ := h.linked
  obtain ⟨after, hstats⟩ := h.listed
  rw [helms, hstats, ownsAll_split h.aligned]
  exact ⟨_, rfl⟩

theorem At.readName {front : List (Nat × StatsBlock)} {p : Nat} {block : StatsBlock}
    {entry : StatsEntry} (h : At elms stats front p block entry) {k : Bytes → StatsCode β}
    (hk : Triple (ownsAll elms stats * P) (k entry.name) S) :
    Triple (ownsAll elms stats * P) (readText block.name >>= k) S := by
  obtain ⟨R, howns⟩ := h.owns
  rw [howns, StatsMemory.owns, mul_assoc, mul_assoc] at hk ⊢
  exact triple_readText hk

theorem At.readValue {front : List (Nat × StatsBlock)} {p : Nat} {block : StatsBlock}
    {entry : StatsEntry} (h : At elms stats front p block entry) {k : StatsValue → StatsCode β}
    (hk : Triple (ownsAll elms stats * P) (k entry.v) S) :
    Triple (ownsAll elms stats * P) (StatsMemory.readValue block.v >>= k) S := by
  obtain ⟨R, howns⟩ := h.owns
  rw [howns, StatsMemory.owns, mul_comm (textCell _ _), mul_assoc, mul_assoc] at hk ⊢
  cases hv : block.v with
  | uint64 value =>
    cases hentry : entry.v with
    | uint64 value' =>
      rw [hv, hentry] at hk
      apply triple_fact
      rintro rfl
      exact hk.pre fun s hs => fact_mul.mpr ⟨rfl, hs⟩
    | alpha valueStr => exact triple_false
  | alpha p =>
    cases hentry : entry.v with
    | uint64 value' => exact triple_false
    | alpha valueStr =>
      rw [hv, hentry] at hk
      show Triple (_ * _) (((readText p) >>= fun valueStr => pure (.alpha valueStr)) >>= k) S
      rw [bind_assoc]
      exact triple_readText hk

theorem nameCount_snoc (name : Bytes) (front : List StatsEntry) (entry : StatsEntry) :
    nameCount name (front ++ [entry]) =
      if entry.name = name then nameCount name front + 1 else nameCount name front := by
  unfold nameCount
  rw [List.countP_append, List.countP_singleton]
  split
  · simp_all
  · simp_all

/-- The inner loop counts the entries with the name of one of them. -/
theorem triple_countStat (hlen : elms.length = stats.length) (hsteps : stats.length < steps)
    {front : List (Nat × StatsBlock)} {p : Nat} {block : StatsBlock} {entry : StatsEntry}
    (hat : At elms stats front p block entry) :
    Triple (queue q elms * ownsAll elms stats) (countStat steps q block.name) fun count =>
      queue q elms * (ownsAll elms stats * fact (count = nameCount entry.name stats)) := by
  unfold countStat
  have hloop := triple_forEach (τ := Bytes) (q := q) elms
    (fun p count => do
      let node ← readNode p
      let entryName ← readText node.value.name
      let name ← readText block.name
      return if entryName = name then count + 1 else count)
    (fun front count => ownsAll elms stats *
      fact (count = nameCount entry.name (stats.take front.length))) ?_ steps (hlen ▸ hsteps) 0
  · have hall : stats.take elms.length = stats := by rw [hlen, List.take_length]
    rw [hall] at hloop
    apply hloop.pre
    exact mul_le_mul_right (le_mul_fact rfl) _
  · intro front' p' block' back count helms
    obtain ⟨entry', hat'⟩ := at_of_length hlen helms
    apply triple_readElement helms
    rintro node rfl
    rw [mul_left_comm]
    apply hat'.readName
    apply hat.readName
    apply triple_pure
    rw [mul_left_comm]
    apply mul_le_mul_right
    apply mul_le_mul_right
    apply fact_mono
    rintro rfl
    rw [hat'.take_succ, nameCount_snoc]

theorem printedOf_snoc (all front : List StatsEntry) (entry : StatsEntry) :
    printedOf all (front ++ [entry]) = {
      text := (printedOf all front).text ++ (statLine entry ++ ascii "\r\n")
      dupes := (printedOf all front).dupes ++
        if 1 < nameCount entry.name all then [entry.name] else [] } := by
  simp [printedOf]

/-- One turn of the outer loop. -/
theorem triple_printStat (hlen : elms.length = stats.length) (hsteps : stats.length < steps)
    {front : List (Nat × StatsBlock)} {p : Nat} {block : StatsBlock} {entry : StatsEntry}
    (hat : At elms stats front p block entry) (printed : Printed) :
    Triple (queue q elms * ownsAll elms stats) (printStat steps q p printed) fun printed' =>
      queue q elms * (ownsAll elms stats * fact (printed' = {
        text := printed.text ++ (statLine entry ++ ascii "\r\n")
        dupes := printed.dupes ++
          if 1 < nameCount entry.name stats then [entry.name] else [] })) := by
  obtain ⟨back, helms⟩ := hat.linked
  unfold printStat
  apply triple_readElement helms
  rintro node rfl
  apply triple_bind (triple_countStat hlen hsteps hat)
  intro count
  rw [mul_left_comm]
  apply hat.readName
  apply hat.readValue
  apply triple_pure
  rw [mul_left_comm]
  apply mul_le_mul_right
  apply mul_le_mul_right
  apply fact_mono
  rintro rfl
  rfl

/-- A client is sent the text of the list, and the list stays as it is. -/
theorem triple_rawPrintStats (hsteps : stats.length < steps) :
    Triple (statsList q stats) (rawPrintStats steps q) fun printed => statsList q stats *
      fact (printed = ⟨StatsProxy.rawPrintStats stats, (printedOf stats stats).dupes⟩) := by
  rw [← mul_one (statsList q stats)]
  apply triple_statsList
  intro elms hlen
  rw [mul_one]
  unfold rawPrintStats
  have hloop := triple_forEach (τ := Bytes) (q := q) elms (printStat steps q)
    (fun front printed => ownsAll elms stats *
      fact (printed = printedOf stats (stats.take front.length))) ?_ steps (hlen ▸ hsteps) ⟨[], []⟩
  · have hall : stats.take elms.length = stats := by rw [hlen, List.take_length]
    rw [hall] at hloop
    apply triple_bind (hloop.pre (mul_le_mul_right (le_mul_fact rfl) _))
    intro printed
    apply triple_pure
    rw [← mul_assoc, mul_one]
    apply mul_le_mul' (statsList_intro elms)
    apply fact_mono
    rintro rfl
    rfl
  · intro front p block back printed helms
    obtain ⟨entry, hat⟩ := at_of_length hlen helms
    rw [← mul_assoc]
    apply ((triple_printStat hlen hsteps hat printed).frame _).post
    intro printed'
    rw [mul_assoc, mul_assoc]
    apply mul_le_mul_right
    apply mul_le_mul_right
    intro s hs
    obtain ⟨hnext, hs⟩ := fact_mul.mp hs
    refine ⟨?_, hs.2⟩
    rw [hnext, hs.1, hat.take_succ, printedOf_snoc]

/-- What is printed of the list of one uri. -/
theorem triple_printUri {n i : Nat} (hi : i < n) (lists : Nat → List StatsEntry)
    (hsteps : (lists i).length < steps) :
    Triple (newStatsCell * uriLists n lists) (rawPrintStats steps (.uri i)) fun printed =>
      newStatsCell * uriLists n lists *
        fact (printed =
          ⟨StatsProxy.rawPrintStats (lists i), (printedOf (lists i) (lists i)).dupes⟩) := by
  have hmem : i ∈ Finset.range n := Finset.mem_range.mpr hi
  unfold uriLists
  rw [← Finset.mul_prod_erase _ _ hmem, mul_left_comm]
  apply ((triple_rawPrintStats hsteps).frame _).post
  intro printed
  exact le_of_eq (by ac_rfl)

end

end StatsProxy.StatsMemory

namespace StatsProxy
open CString Interaction Program Poller Separation TailQueue StatsMemory

/-- Whatever a poller has done, and whatever the replies were that it got its lists from: the
reader's loops print from memory the text of the list that the model has for the uri, log the
names that are in it twice, and leave all lists. -/
theorem runBackend_printsMemory (settings : LocalSettings) (uris : List Bytes)
    (inputs : List Answer) (i : Fin uris.length) (more : Nat) :
    let log := (runBackend.exec (World.initial settings uris) inputs).trace
    let stats := (run (World.initial settings uris) log).bep.stats
    (∃ polls, PublishedBy uris log polls) ∧
    ∀ polls, PublishedBy uris log polls →
      ∃ m, (do
          initUris uris.length
          pollsCode (enoughSteps polls + more) polls
          StatsMemory.rawPrintStats (enoughSteps polls + more) (.uri i)) (startMemory uris.length) =
            some (⟨rawPrintStats (stats i), (printedOf (stats i) (stats i)).dupes⟩, m) ∧
        (newStatsCell * uriLists uris.length stats).Holds m.store := by
  refine ⟨runBackend_published settings uris inputs, ?_⟩
  intro polls hpolls
  have hstats := runBackend_stats hpolls
  have hcode := triple_started uris.length polls (fun poll hmem => (hpolls.known poll hmem).lt) more
  have hsteps := Nat.lt_of_lt_of_le (published_enoughSteps polls i)
    (Nat.le_add_right _ more)
  have hprint := triple_bind hcode fun _ => triple_printUri i.isLt _ hsteps
  obtain ⟨printed, m, hrun, hend⟩ := hprint.run (m := startMemory uris.length)
    (startStore_holds uris.length)
  rw [mul_comm, fact_mul, ← uriLists_congr hstats, ← hstats i i.isLt] at hend
  obtain ⟨rfl, hend⟩ := hend
  refine ⟨m, ?_, hend⟩
  rw [← hrun, bind_assoc]

end StatsProxy
