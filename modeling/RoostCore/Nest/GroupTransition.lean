import RoostCore.Nest.LockGroup

/-! Pending group transitions and their messages. A mark on an entity belongs to one
message, which is queued, delayed or executed; the callers of continuations are answered
by the transition or by the continuation. Both rest on the admission of every transition
message. -/
namespace Roost.Nest.LockGroup
open List Option World

def Task.request : Task → Option Request
  | .transition req | .lockGroups req _ | .lockEntity req | .settle req => some req
  | _ => none

section frames
variable (w : World) (i : Nat) (req : Request) (c : Choice) (task : Task)

@[simp] theorem setTask_task : ((w.setTask i task).workers i).task = task := by
  simp [setTask]

theorem setTask_other (other : j ≠ i) :
    (w.setTask i task).workers j = w.workers j := upd_ne _ _ other

@[simp] theorem setTask_groups (j : Nat) (task : Task) :
    ((w.setTask i task).workers j).groups = (w.workers j).groups := by
  by_cases same : j = i
  · simp [setTask, same]
  · rw [setTask_other w i task same]

@[simp] theorem setTask_entities (j : Nat) (task : Task) :
    ((w.setTask i task).workers j).entities = (w.workers j).entities := by
  by_cases same : j = i
  · simp [setTask, same]
  · rw [setTask_other w i task same]

/-- What the end of an execution does: the message is used up, and it is delayed again or
its mark is cleared. A refusal by the delayed queue does neither. -/
inductive Ends (w : World) (i : Nat) (req : Request) (refused : Bool) : World → Prop
  | delayed : Ends w i req refused { w with
      messages := w.messages.erase (.executing i, req) ++ [(.delayed, { req with attempts := req.attempts + 1 })] }
  | lost (full : refused = true) : Ends w i req refused { w with
      messages := w.messages.erase (.executing i, req) }
  | failed : Ends w i req refused { w with
      messages := w.messages.erase (.executing i, req)
      pending := upd w.pending req.entity none
      answered := w.answered ++ req.caller }
  | done (settles : (w.workers i).task = .settle req) (epoch : Nat → Nat) (handed answered : List Nat)
      (sent : (handed = [] ∧ answered = req.sends) ∨ (handed = req.sends ∧ answered = [])) :
      Ends w i req refused { w with
      messages := w.messages.erase (.executing i, req)
      pending := upd w.pending req.entity none
      group := upd w.group req.entity (World.Request.destination req)
      epoch
      handed := w.handed ++ handed
      answered := w.answered ++ answered }

theorem retry_ends (marked : w.pending req.entity = some (req.state, req.target)) :
    Ends w i req c.refused (w.retryGroupTransition i req c) := by
  simp only [retryGroupTransition, marked, if_true]
  split
  · exact .failed
  split
  · rename_i full
    exact .lost full
  · exact .delayed

theorem upd_same {f : Nat → α} {i : Nat} (already : f i = value) : upd f i value = f := by
  funext j
  simp only [upd]
  split
  · rename_i same
    rw [same, already]
  · rfl

theorem setGroup_moves (e g : Nat) :
    ∃ epoch, w.setGroup e g = { w with group := upd w.group e g, epoch } := by
  simp only [setGroup]
  split
  · rename_i already
    exact ⟨w.epoch, by rw [upd_same already]⟩
  · exact ⟨_, rfl⟩

theorem update_ends (settles : (w.workers i).task = .settle req) : Ends w i req false (w.update i req c) := by
  simp only [update]
  split
  · exact .failed
  obtain ⟨epoch, moved⟩ := setGroup_moves { w with messages := w.messages.erase (.executing i, req) }
    req.entity (World.Request.destination req)
  rw [moved]
  split
  · simpa [clear] using Ends.done settles epoch [] req.sends (.inl ⟨rfl, rfl⟩)
  · simpa [clear] using Ends.done settles epoch req.sends [] (.inr ⟨rfl, rfl⟩)

end frames

/-- Whether the step sends a transition to the delayed queue. -/
def Act.retries : Act → Bool
  | .retry _ => true
  | _ => false

/-- Whether the step ends the execution of a transition. -/
def Act.ends : Act → Bool
  | .retry _ | .stale _ | .update _ => true
  | _ => false

/-- What a step may do, given the locks, the marks and the task of its worker. -/
def Lawful (w : World) (k : Worker) : Act → Prop
  | .become task => task.request = k.task.request
  | .takeGroup g task => w.groupLock g = none ∧ task.request = k.task.request
  | .takeEntity e task => w.entityLock e = none ∧ task.request = k.task.request
  | .dropGroup g => g ∈ k.groups
  | .dropEntity e => e ∈ k.entities
  | .retry req => k.task.request = some req
  | .stale req => k.task.request = some req ∧ w.pending req.entity ≠ some (req.state, req.target)
  | .update req => k.task = .settle req

theorem advance_lawful (w : World) (k : Worker) : Lawful w k (advance w k) := by
  obtain ⟨groups, entities, task⟩ := k
  cases task with
  | idle => rfl
  | capture job todo snaps =>
    cases todo with
    | nil =>
      simp only [advance]
      split <;> rfl
    | cons e todo => rfl
  | lockGroup job snaps group => exact keeps_if (P := Lawful w _) rfl fun free => ⟨free, rfl⟩
  | lockEntities job snaps group todo =>
    cases todo with
    | nil => rfl
    | cons e todo =>
      exact keeps_unless (P := Lawful w _) rfl fun _ => keeps_if rfl fun free => ⟨free, rfl⟩
  | validate job snaps group =>
    simp only [advance]
    split
    · rfl
    · rfl
    · split <;> rfl
  | handling job group => rfl
  | broadcastLock e => exact keeps_if (P := Lawful w _) rfl fun free => ⟨free, rfl⟩
  | broadcasting e => rfl
  | transition req => rfl
  | lockGroups req todo =>
    cases todo with
    | nil => rfl
    | cons g todo => exact keeps_if (P := Lawful w _) rfl fun free => ⟨free, rfl⟩
  | lockEntity req => exact keeps_if (P := Lawful w _) rfl fun free => ⟨free, rfl⟩
  | settle req =>
    simp only [advance]
    split
    · rfl
    · rename_i unmarked
      exact ⟨rfl, unmarked⟩
  | release next =>
    simp only [advance]
    split
    · exact mem_cons_self
    · exact mem_cons_self
    · split <;> rfl

inductive Move (w : World) : Input → World → Prop
  | stay : Move w input w
  | ask {e target goal : Nat} {state : TransitionState} {handler : Option String} {bound refused : Bool}
      (unmarked : w.pending e = none) :
      Move w (.request e state target handler bound refused) { w with
        pending := upd w.pending e (some (state, goal))
        calls := if handler.isSome then w.calls + 1 else w.calls
        messages := if refused then w.messages
          else w.messages ++ [(.queued, ⟨e, state, goal, 0, handler.map fun name => ⟨name, w.calls⟩⟩)] }
  | due {index : Nat} {req : Request} {refused : Bool} (present : (.delayed, req) ∈ w.messages) :
      Move w (.due index refused) { w with
        messages := w.messages.erase (.delayed, req) ++ if refused then [] else [(.queued, req)] }
  | take {i index : Nat} {req : Request} (present : (.queued, req) ∈ w.messages) (idle : (w.workers i).task = .idle) :
      Move w (.take i index) ({ w with
        messages := w.messages.erase (.queued, req) ++ [(Place.executing i, req)] }.setTask i (.transition req))
  | start (idle : (w.workers i).task = .idle)
      (first : (∃ e, task = .broadcastLock e) ∨ ∃ job, task = .capture job job.targets []) :
      Move w input (w.setTask i task)
  | work (goes : (advance w (w.workers i)).ends = false) :
      Move w (.advance i c) (w.apply i c (advance w (w.workers i)))
  | ends {i : Nat} {c : Choice} {req : Request} {refused : Bool} {v : World}
      (executes : (w.workers i).task.request = some req) (ends : Ends w i req refused v)
      (full : refused = true → (advance w (w.workers i)).retries = true ∧ c.refused = true) :
      Move w (.advance i c) (v.setTask i (.release none))
  | reply (handed : channel ∈ w.handed) :
      Move w (.reply channel) { w with
        handed := w.handed.erase channel, answered := w.answered ++ [channel] }

/-- Every message belongs to the mark of its entity, no entity has two, and the messages
in execution are those of the workers. -/
structure Marked (w : World) : Prop where
  one : ∀ e, w.messages.countP (fun m => m.2.entity == e) ≤ 1
  marked : ∀ m ∈ w.messages, w.pending m.2.entity = some (m.2.state, m.2.target)
  executing : ∀ i req, (Place.executing i, req) ∈ w.messages ↔ (w.workers i).task.request = some req

section moves
variable {w v : World} {input : Input} {i : Nat} {req : Request} {x y : Place × Request}

theorem step_move (marked : Marked w) (input : Input) : Move w input (w.step input) := by
  cases input with
  | request e state target handler bound refused =>
    simp only [step, requestTransition]
    split
    · exact .stay
    split
    · exact .stay
    rename_i free
    split
    · exact .stay
    · exact .ask (by simpa using free)
  | due index refused =>
    simp only [step]
    split
    · rename_i found
      exact .due (mem_of_getElem? found)
    · exact .stay
  | take i index =>
    simp only [step]
    split
    · rename_i found
      split
      · rename_i idle
        exact .take (mem_of_getElem? found) idle
      · exact .stay
    · exact .stay
  | dispatch i targets tryBatch =>
    simp only [step, start]
    split
    · exact .stay
    split
    · rename_i idle
      exact .start idle (.inr ⟨⟨targets, tryBatch, 0⟩, rfl⟩)
    · exact .stay
  | broadcast i e =>
    simp only [step, start]
    split
    · rename_i idle
      exact .start idle (.inl ⟨e, rfl⟩)
    · exact .stay
  | advance i c =>
    have lawful := advance_lawful w (w.workers i)
    simp only [step]
    cases acts : advance w (w.workers i) with
    | retry req =>
      rw [acts] at lawful
      have mark := marked.marked _ ((marked.executing i req).mpr lawful)
      exact .ends lawful (retry_ends w i req c mark) fun full => ⟨by rw [acts]; rfl, full⟩
    | stale req =>
      -- the mark of a message in execution is its own
      rw [acts] at lawful
      exact absurd (marked.marked _ ((marked.executing i req).mpr lawful.1)) lawful.2
    | update req =>
      rw [acts] at lawful
      have settles : (w.workers i).task = .settle req := lawful
      exact .ends (by rw [settles]; rfl) (update_ends w i req c settles) nofun
    | _ =>
      rw [← acts]
      exact .work (by rw [acts]; rfl)
  | reply channel =>
    simp only [step]
    split
    · rename_i handed
      exact .reply handed
    · exact .stay

theorem upd_requests {k : Worker} (same : k.task.request = (w.workers i).task.request) (j : Nat) :
    (upd w.workers i k j).task.request = (w.workers j).task.request := by
  by_cases here : j = i
  · subst here
    simpa using same
  · rw [upd_ne _ _ here]

/-- A step that ends no transition changes locks and workers alone. -/
theorem apply_kept (c : Choice) (goes : (advance w (w.workers i)).ends = false) :
    ∃ groupLock entityLock workers, w.apply i c (advance w (w.workers i)) =
        { w with groupLock, entityLock, workers } ∧
      ∀ j, (workers j).task.request = (w.workers j).task.request := by
  have lawful := advance_lawful w (w.workers i)
  generalize advance w (w.workers i) = act at lawful goes
  cases act with
  | become task => exact ⟨_, _, _, rfl, upd_requests lawful⟩
  | takeGroup g task | takeEntity e task => exact ⟨_, _, _, rfl, upd_requests lawful.2⟩
  | dropGroup g | dropEntity e => exact ⟨_, _, _, rfl, upd_requests rfl⟩
  | retry | stale | update => contradiction

section
variable (marked : Marked w)
include marked

theorem Marked.apart (present : x ∈ w.messages) (left : m ∈ w.messages.erase x) :
    m.2.entity ≠ x.2.entity := by
  intro same
  have one := marked.one x.2.entity
  rw [(perm_cons_erase present).countP_eq] at one
  have more : 0 < (w.messages.erase x).countP (fun m => m.2.entity == x.2.entity) :=
    countP_pos_iff.mpr ⟨m, left, by simp [same]⟩
  simp only [countP_cons, beq_self_eq_true, if_true] at one
  omega

theorem Marked.congr (messages : v.messages = w.messages)
    (pending : v.pending = w.pending) (tasks : ∀ j, (v.workers j).task.request = (w.workers j).task.request) :
    Marked v := by
  constructor
  · rw [messages]
    exact marked.one
  · rw [messages, pending]
    exact marked.marked
  · intro i req
    rw [messages, tasks]
    exact marked.executing i req

/-- A message is replaced by one for the same request at another place. -/
theorem Marked.replace (present : x ∈ w.messages) (entity : y.2.entity = x.2.entity)
    (state : y.2.state = x.2.state) (target : y.2.target = x.2.target)
    (messages : v.messages = w.messages.erase x ++ [y]) (pending : v.pending = w.pending)
    (executing : ∀ i req, (Place.executing i, req) ∈ v.messages ↔ (v.workers i).task.request = some req) :
    Marked v := by
  constructor
  · intro e
    have one := marked.one e
    rw [(perm_cons_erase present).countP_eq] at one
    rw [messages, countP_append]
    simp only [countP_cons, countP_nil, entity] at one ⊢
    omega
  · intro m member
    rw [messages] at member
    rw [pending]
    rcases mem_snoc.mp member with old | rfl
    · exact marked.marked m (mem_of_mem_erase old)
    · rw [entity, state, target]
      exact marked.marked x present
  · exact executing

theorem Marked.remove (present : x ∈ w.messages) (messages : v.messages = w.messages.erase x)
    (pending : v.pending = w.pending ∨ v.pending = upd w.pending x.2.entity none)
    (executing : ∀ i req, (Place.executing i, req) ∈ v.messages ↔ (v.workers i).task.request = some req) :
    Marked v := by
  constructor
  · intro e
    rw [messages]
    exact (erase_sublist.countP_le).trans (marked.one e)
  · intro m member
    rw [messages] at member
    have old := marked.marked m (mem_of_mem_erase member)
    rcases pending with same | cleared
    · rw [same]
      exact old
    · rw [cleared, upd_ne _ _ (marked.apart present member)]
      exact old
  · exact executing

theorem Marked.executing_erase (executes : (w.workers i).task.request = some req) (j : Nat)
    (other : Request) : (Place.executing j, other) ∈ w.messages.erase (.executing i, req) ↔
      ((w.setTask i (.release none)).workers j).task.request = some other := by
  by_cases same : j = i
  · subst same
    rw [setTask_task]
    refine ⟨fun left => ?_, nofun⟩
    have present := (marked.executing j req).mpr executes
    have again := (marked.executing j other).mp (mem_of_mem_erase left)
    obtain rfl := some.inj (executes.symm.trans again)
    exact absurd rfl (marked.apart present left)
  · rw [setTask_other w i _ same, ← marked.executing j other]
    apply mem_erase_of_ne
    intro equal
    cases equal
    exact same rfl

theorem Marked.ends (executes : (w.workers i).task.request = some req)
    (ends : Ends w i req refused v) : Marked (v.setTask i (.release none)) := by
  have present := (marked.executing i req).mpr executes
  have executing := marked.executing_erase executes
  cases ends with
  | delayed =>
    refine marked.replace present (y := (.delayed, { req with attempts := req.attempts + 1 })) rfl rfl rfl rfl rfl ?_
    intro j other
    simp only [setTask_messages, mem_append, mem_singleton, Prod.mk.injEq, reduceCtorEq, false_and, or_false]
    exact executing j other
  | lost => exact marked.remove present rfl (.inl rfl) executing
  | failed | done => exact marked.remove present rfl (.inr rfl) executing

theorem Marked.unmarked (unmarked : w.pending e = none) : ∀ m ∈ w.messages, m.2.entity ≠ e := by
  intro m member same
  have mark := marked.marked m member
  rw [same, unmarked] at mark
  contradiction

theorem Marked.move (move : Move w input v) : Marked v := by
  cases move with
  | stay => exact marked
  | @ask e target goal state handler bound refused unmarked =>
    have none := marked.unmarked unmarked
    have zero : w.messages.countP (fun m => m.2.entity == e) = 0 :=
      countP_eq_zero.mpr fun m member => by simpa using none m member
    have old : ∀ m ∈ w.messages, upd w.pending e (some (state, goal)) m.2.entity =
        some (m.2.state, m.2.target) := by
      intro m member
      rw [upd_ne _ _ (none m member)]
      exact marked.marked m member
    cases refused with
    | true => exact ⟨marked.one, old, marked.executing⟩
    | false =>
      constructor
      · intro f
        have one := marked.one f
        by_cases same : e = f
        · subst same
          simp [zero]
        · simpa [same] using one
      · intro m member
        rcases mem_snoc.mp member with before | rfl
        · exact old m before
        · simp
      · simpa using marked.executing
  | @due index req refused present =>
    have executing : ∀ i other, (Place.executing i, other) ∈ w.messages.erase (.delayed, req) ↔
        (w.workers i).task.request = some other := by
      intro i other
      rw [mem_erase_of_ne (by simp)]
      exact marked.executing i other
    cases refused with
    | true => exact marked.remove present (by simp) (.inl rfl) (by simpa using executing)
    | false => exact marked.replace present (y := (.queued, req)) rfl rfl rfl rfl rfl (by simpa using executing)
  | @take i index req present idle =>
    refine marked.replace present (y := (.executing i, req)) rfl rfl rfl rfl rfl ?_
    intro j other
    simp only [setTask_messages, mem_append, mem_singleton, Prod.mk.injEq, Place.executing.injEq]
    rw [mem_erase_of_ne (by simp), marked.executing]
    by_cases same : j = i
    · subst same
      simp [idle, Task.request, eq_comm]
    · rw [setTask_other _ i _ same]
      simp [same]
  | start idle first =>
    refine marked.congr rfl rfl (upd_requests ?_)
    rw [idle]
    rcases first with ⟨e, rfl⟩ | ⟨job, rfl⟩ <;> rfl
  | work goes =>
    obtain ⟨_, _, _, same, tasks⟩ := apply_kept _ goes
    rw [same]
    exact marked.congr rfl rfl tasks
  | ends executes ends => exact marked.ends executes ends
  | reply => exact marked.congr rfl rfl fun _ => rfl

end

/-- The callers that wait for a transition message. -/
def World.waiting (w : World) : List Nat := w.messages.flatMap fun m => m.2.caller

/-- Every mark has its message, and every caller is answered, waits for a continuation or
waits for a transition message. -/
structure Accounted (w : World) : Prop extends Marked w where
  carried : ∀ e, (w.pending e).isSome → ∃ m ∈ w.messages, m.2.entity = e
  named : ∀ m ∈ w.messages, m.2.sends = m.2.caller
  callers : ∀ c, w.answered.count c + w.handed.count c + w.waiting.count c = if c < w.calls then 1 else 0

/-- Every transition message is admitted: the first one, the delayed retry, and again when
the delay is over. A continuation names its handler. -/
def Admitted (w : World) : Input → Prop
  | .request _ _ _ handler _ refused => refused = false ∧ handler ≠ some ""
  | .due _ refused => refused = false
  | .advance i c => (advance w (w.workers i)).retries → c.refused = false
  | _ => True

instance (w : World) (input : Input) : Decidable (Admitted w input) := by
  cases input <;> simp only [Admitted] <;> infer_instance

theorem waiting_erase (present : x ∈ w.messages) (c : Nat) :
    w.waiting.count c = x.2.caller.count c + ((w.messages.erase x).flatMap fun m => m.2.caller).count c := by
  have same := ((perm_cons_erase present).flatMap_right fun m => m.2.caller).count_eq c
  simpa [waiting] using same

section
variable (acc : Accounted w)
include acc

/-- A message is replaced by one for the same request at another place. -/
theorem Accounted.replace (present : x ∈ w.messages)
    (entity : y.2.entity = x.2.entity) (continuation : y.2.continuation = x.2.continuation)
    (messages : v.messages = w.messages.erase x ++ [y]) (pending : v.pending = w.pending)
    (calls : v.calls = w.calls) (handed : v.handed = w.handed) (answered : v.answered = w.answered)
    (marked : Marked v) : Accounted v := by
  have caller : y.2.caller = x.2.caller := by simp [Request.caller, continuation]
  have sends : y.2.sends = x.2.sends := by simp [Request.sends, continuation]
  refine { toMarked := marked, carried := ?_, named := ?_, callers := ?_ }
  · intro e some
    rw [pending] at some
    obtain ⟨m, member, same⟩ := acc.carried e some
    rw [messages]
    by_cases here : m = x
    · exact ⟨y, by simp, by rw [entity, ← here, same]⟩
    · exact ⟨m, mem_append_left _ ((mem_erase_of_ne here).mpr member), same⟩
  · intro m member
    rw [messages] at member
    rcases mem_snoc.mp member with old | rfl
    · exact acc.named m (mem_of_mem_erase old)
    · rw [sends, caller]
      exact acc.named x present
  · intro c
    have before := acc.callers c
    rw [waiting_erase present] at before
    rw [answered, handed, calls, ← before]
    simp only [waiting, messages, flatMap_append, flatMap_cons, flatMap_nil, append_nil,
      count_append, caller]
    omega

/-- A message, its mark and the wait of its caller end together. -/
theorem Accounted.remove (present : x ∈ w.messages)
    (messages : v.messages = w.messages.erase x) (pending : v.pending = upd w.pending x.2.entity none)
    (calls : v.calls = w.calls)
    (answers : ∀ c, v.answered.count c + v.handed.count c =
      w.answered.count c + w.handed.count c + x.2.caller.count c)
    (marked : Marked v) : Accounted v := by
  refine { toMarked := marked, carried := ?_, named := ?_, callers := ?_ }
  · intro e some
    rw [pending] at some
    by_cases here : e = x.2.entity
    · rw [here, upd_self] at some
      contradiction
    rw [upd_ne _ _ here] at some
    obtain ⟨m, member, same⟩ := acc.carried e some
    have other : m ≠ x := by
      intro equal
      exact here (by rw [← same, equal])
    rw [messages]
    exact ⟨m, (mem_erase_of_ne other).mpr member, same⟩
  · intro m member
    rw [messages] at member
    exact acc.named m (mem_of_mem_erase member)
  · intro c
    have before := acc.callers c
    rw [waiting_erase present] at before
    rw [calls, ← before, waiting, messages, answers c]
    omega

theorem Accounted.congr (messages : v.messages = w.messages)
    (pending : v.pending = w.pending) (calls : v.calls = w.calls)
    (answers : ∀ c, v.answered.count c + v.handed.count c = w.answered.count c + w.handed.count c)
    (marked : Marked v) : Accounted v := by
  refine { toMarked := marked, carried := ?_, named := ?_, callers := ?_ }
  · rw [messages, pending]
    exact acc.carried
  · rw [messages]
    exact acc.named
  · intro c
    rw [calls, ← acc.callers c, waiting, messages, answers c]
    rfl

theorem Accounted.ends (executes : (w.workers i).task.request = some req)
    (ends : Ends w i req false v) : Accounted (v.setTask i (.release none)) := by
  have present := (acc.executing i req).mpr executes
  have marked := acc.toMarked.ends executes ends
  cases ends with
  | delayed =>
    exact acc.replace present (y := (.delayed, { req with attempts := req.attempts + 1 })) rfl rfl rfl rfl rfl
      rfl rfl marked
  | lost full => contradiction
  | failed =>
    refine acc.remove present rfl rfl rfl ?_ marked
    intro c
    simp only [setTask_answered, setTask_handed, count_append]
    omega
  | done settles epoch handed answered sent =>
    refine acc.remove present rfl rfl rfl ?_ marked
    intro c
    have sends : req.sends = req.caller := acc.named _ present
    simp only [setTask_answered, setTask_handed, count_append]
    rcases sent with ⟨rfl, rfl⟩ | ⟨rfl, rfl⟩ <;> simp only [sends, count_nil] <;> omega

theorem Accounted.move (move : Move w input v) (admitted : Admitted w input) :
    Accounted v := by
  have marked := acc.toMarked.move move
  cases move with
  | stay => exact acc
  | @ask e target goal state handler bound refused unmarked =>
    obtain ⟨rfl, named⟩ := admitted
    refine { toMarked := marked, carried := ?_, named := ?_, callers := ?_ }
    · intro f some
      by_cases same : f = e
      · exact ⟨_, mem_append_right _ mem_cons_self, same.symm⟩
      · obtain ⟨m, member, of⟩ := acc.carried f (by simpa [upd_ne _ _ same] using some)
        exact ⟨m, mem_append_left _ member, of⟩
    · intro m member
      rcases mem_snoc.mp member with old | rfl
      · exact acc.named m old
      cases handler with
      | none => rfl
      | some name =>
        have filled : name ≠ "" := fun empty => named (by rw [empty])
        simp [Request.sends, Request.caller, filled]
    · intro c
      have before := acc.callers c
      cases handler with
      | none => simpa [waiting, Request.caller] using before
      | some name =>
        simp only [waiting, Request.caller] at before
        simp only [waiting, Request.caller, isSome_some, if_true, Bool.false_eq_true, if_false,
          flatMap_append, flatMap_cons, flatMap_nil, append_nil, count_append,
          map_some, toList_some, count_singleton, beq_iff_eq]
        split at before <;> split <;> split <;> omega
  | @due index req refused present =>
    obtain rfl : refused = false := admitted
    exact acc.replace present (y := (.queued, req)) rfl rfl rfl rfl rfl rfl rfl marked
  | @take i index req present idle =>
    exact acc.replace present (y := (.executing i, req)) rfl rfl rfl rfl rfl rfl rfl marked
  | start => exact acc.congr rfl rfl rfl (fun _ => rfl) marked
  | work goes =>
    obtain ⟨_, _, _, same, -⟩ := apply_kept _ goes
    rw [same] at marked ⊢
    exact acc.congr rfl rfl rfl (fun _ => rfl) marked
  | @ends i c req refused _ executes ends full =>
    have room : refused = false := by
      by_contra refuses
      obtain ⟨retries, also⟩ := full (by simpa using refuses)
      exact Bool.false_ne_true ((admitted retries).symm.trans also)
    rw [room] at ends
    exact acc.ends executes ends
  | reply handed =>
    refine acc.congr rfl rfl rfl (fun c => ?_) marked
    rw [(perm_cons_erase handed).count_eq c]
    simp only [count_append, count_cons, count_nil]
    omega

end

end moves

/-- An engine before any dispatch or transition; the entities may be in groups. -/
def World.fresh (group : Nat → Nat) : World := { group }

theorem fresh_marked (group : Nat → Nat) : Marked (.fresh group) := by
  constructor
  · intro e
    exact Nat.zero_le 1
  · simp [fresh]
  · simp [fresh, Task.request]

theorem fresh_accounted (group : Nat → Nat) : Accounted (.fresh group) := by
  refine { toMarked := fresh_marked group, carried := ?_, named := ?_, callers := ?_ }
  · simp [fresh]
  · simp [fresh]
  · intro c
    rfl

/-- While every transition message is admitted, a pending transition has exactly one
message, and the caller of a continuation is answered once: it waits for the transition,
then for the continuation it was handed to, and then for nothing. -/
theorem pending_transition_has_one_message (group : Nat → Nat) (inputs : List Input)
    (admitted : Along step Admitted (.fresh group) inputs) :
    let w := run step (.fresh group) inputs
    (∀ e state target, w.pending e = some (state, target) →
      w.messages.countP (fun m => m.2.entity == e) = 1 ∧
        ∃ m ∈ w.messages, m.2.entity = e ∧ m.2.state = state ∧ m.2.target = target) ∧
    ∀ c < w.calls, w.answered.count c ≤ 1 ∧
      ((∀ m ∈ w.messages, c ∉ m.2.caller) → c ∉ w.handed → w.answered.count c = 1) := by
  intro w
  have acc : Accounted w := invariant_along
    (fun _ input admitted acc => acc.move (step_move acc.toMarked input) admitted) (fresh_accounted group) admitted
  constructor
  · intro e state target mark
    obtain ⟨m, member, of⟩ := acc.carried e (by rw [mark]; rfl)
    have own := acc.marked m member
    rw [of, mark] at own
    cases own
    refine ⟨?_, m, member, of, rfl, rfl⟩
    have some : 0 < w.messages.countP (fun m => m.2.entity == e) :=
      countP_pos_iff.mpr ⟨m, member, by simp [of]⟩
    have one := acc.one e
    omega
  · intro c called
    have callers := acc.callers c
    rw [if_pos called] at callers
    refine ⟨by omega, fun unsent unhanded => ?_⟩
    have none : w.waiting.count c = 0 := by
      apply count_eq_zero_of_not_mem
      intro member
      obtain ⟨m, message, waits⟩ := mem_flatMap.mp member
      exact unsent m message waits
    have left := count_eq_zero_of_not_mem unhanded
    omega

/-- Entity 1 joins group 7 and then asks again to join group 8: the second transition finds
the entity locked by a broadcast, is delayed and then done, and its continuation answers. -/
def joinInputs : List Input :=
  [.request 1 .join 7 none false false, .take 0 0] ++ replicate 8 (.advance 0 {}) ++
  [.request 1 .join 8 (some "joined") true false, .broadcast 1 1, .advance 1 {}, .take 0 0] ++
  replicate 6 (.advance 0 {}) ++ [.advance 1 {}, .advance 1 {}, .advance 1 {}, .due 0 false, .take 0 0] ++
  replicate 8 (.advance 0 {}) ++ [.reply 0]

theorem pending_transition_after_contention :
    let w := run step (.fresh fun _ => 0) joinInputs
    Along step Admitted (.fresh fun _ => 0) joinInputs ∧ w.group 1 = 8 ∧ w.answered.count 0 = 1 := by
  have admitted : Along step Admitted (.fresh fun _ => 0) joinInputs := by decide +kernel
  have once := (pending_transition_has_one_message _ _ admitted).2 0 (by decide +kernel)
  exact ⟨admitted, by decide +kernel, once.2 (by decide +kernel) (by decide +kernel)⟩

/-- The first send of the transition is refused: the mark stays without a message, and the
caller that the continuation took over is not answered. -/
theorem refused_transition_leaves_mark :
    let w := run step (.fresh fun _ => 0) [.request 1 .join 7 (some "joined") true true]
    w.pending 1 = some (.join, 7) ∧ w.messages = [] ∧ w.calls = 1 ∧ w.handed = [] ∧ w.answered = [] := by
  decide +kernel

end Roost.Nest.LockGroup
