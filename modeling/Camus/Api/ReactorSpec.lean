/-
**The reactor serves commands in order and answers each once.**

* `Reactor.Serves` — the invariant: the admitted commands are the answered ones, those in hand, the
  backlog and the channel, in this order; `Reactor.act_serves` — every step keeps it.
* `Reactor.Concludes` — what the end of a job does: the commands its result covers get their replies
  from that result, the others go back ahead of everything that waits.
* `reactor_serves` — both, for every schedule, from any opened root.
-/

import Camus.Api.Reactor
import Camus.Storage.Opened

set_option linter.unusedSectionVars false

namespace Camus

open Codec Checked Disk FaultIo Machine

variable {command : Command} {result : Except Error AppendJob} {jobEnd : JobEnd}
  {backlog channel : List Command} {count reply : Nat}

/-! ### What is to hold -/

/-- The kinds of requests. -/
inductive RequestKind where
  | append
  | read
  | release
  | reclaim
deriving Repr, DecidableEq

def Request.kind : Request → RequestKind
  | .append _ _ _ => .append
  | .read _ _ => .read
  | .release _ _ _ => .release
  | .reclaim => .reclaim

/-- The bytes a request counts for in a group. -/
def Request.groupBytes : Request → Nat
  | .append _ _ encodedBytes => encodedBytes
  | .release _ _ encodedBound => encodedBound
  | _ => 0

/-- The bytes of a group of a kind. -/
def Limits.groupLimit (limits : Limits) : RequestKind → Nat
  | .append => limits.maxAppendGroupBytes
  | .release => Reactor.maxReleaseGroupBytes limits
  | _ => 0

/-- The bounds fit together: a group may hold a command, and every admissible command fits a group. -/
structure Limits.Valid (limits : Limits) : Prop where
  units : 1 ≤ limits.maxCommitUnits
  append : limits.maxEpochBytes ≤ limits.maxAppendGroupBytes
  release : 72 + 16 * limits.maxReleaseRecords ≤ Reactor.maxReleaseGroupBytes limits

/-- Commands of one kind within the bounds of a group. -/
structure Limits.Groups (limits : Limits) (group : List Command) : Prop where
  nonempty : group ≠ []
  few : group.length ≤ limits.maxCommitUnits
  alike : ∃ kind, (∀ command ∈ group, command.request.kind = kind) ∧
    (group.map fun command => command.request.groupBytes).sum ≤ limits.groupLimit kind

/-- A reply is one for this command: of its kind, with its own records or consecutive identities of
its stream for them. -/
def Reply.Answers (rootId : RootId) (command : Command) : Reply → Prop
  | .append (.ok ids) => ∃ streamId records encodedBytes first,
      command.request = .append streamId records encodedBytes ∧
      ids = Epoch.ids rootId ⟨streamId, first, records⟩
  | .append (.error _) => command.request.kind = .append
  | .appendWait records => ∃ streamId encodedBytes,
      command.request = .append streamId records encodedBytes
  | .read _ => command.request.kind = .read
  | .release _ => command.request.kind = .release
  | .reclaim _ => command.request.kind = .reclaim

/-- What the commands of a phase satisfy. -/
def Phase.Sound (limits : Limits) (backlog channel : List Command) : Phase → Prop
  | .selecting _ => backlog = []
  | .gatheringAppends entries groupBytes _ =>
    limits.Groups (entries.map AppendEntry.command) ∧
      groupBytes = (entries.map AppendEntry.encodedBytes).sum
  | .gatheringReleases entries groupBytes =>
    limits.Groups (entries.map ReleaseEntry.command) ∧
      groupBytes = (entries.map ReleaseEntry.encodedBound).sum
  | .appending entries => entries ≠ []
  | .ended => backlog = [] ∧ channel = []
  | .unwound lost => lost = [] ∧ backlog = [] ∧ channel = []
  | _ => True

/-- **The reactor serves its clients.** -/
structure Reactor.Serves (rootId : RootId) (reactor : Reactor) : Prop where
  fifo : reactor.admitted = reactor.answered.map Prod.fst ++
    (reactor.phase.inHand ++ (reactor.backlog ++ reactor.channel))
  numbered : reactor.admitted.map Command.reply = List.range reactor.admitted.length
  admissible : ∀ command ∈ reactor.admitted, command.request.admissible reactor.limits = true
  replies : ∀ entry ∈ reactor.answered, entry.2.Answers rootId entry.1
  groups : ∀ entry ∈ reactor.handed, reactor.limits.Groups entry.2 ∧
    entry.2 <+: reactor.admitted.drop entry.1 ∧ entry.1 ≤ reactor.answered.length
  ordered : (reactor.handed.map Prod.fst).Pairwise (· ≤ ·)
  depth : reactor.alive = true →
    reactor.queueDepth + reactor.answered.length = reactor.admitted.length
  sound : reactor.phase.Sound reactor.limits reactor.backlog reactor.channel
  root : ∀ storage, reactor.storage = some storage → storage.rootId = rootId
  valid : reactor.limits.Valid

/-- The replies to commands whose job failed: the first gets the error, the others a copy, or Poisoned
where it is not copied. -/
def errorReplies (reply : Error → Reply) (error : Error) : Nat → List Reply
  | 0 => []
  | others + 1 =>
    reply error :: List.replicate others (reply (error.copyNonpoisoning.getD .poisoned))

/-- The replies to a group of appends whose job failed. -/
def appendErrors : Error → Nat → List Reply := errorReplies fun error => .append (.error error)

section

variable [Hasher]

/-- **The replies to the first appends of a group**, from the result of their job and the storage it
left. -/
def AppendReplies (limits : Limits) (left : Option Storage) (entries : List AppendEntry)
    (replies : List Reply) : Except Error AppendJob → Prop
  | .ok (.complete outputs selected) =>
    (∃ storage, left = some storage ∧
      storage.Stores ((entries.take selected).map AppendEntry.unit) outputs) ∧
    if selected ≠ 0 ∧ selected ≤ entries.length ∧ outputs.length = selected then
      replies = outputs.map fun ids => .append (.ok ids)
    else replies =
      appendErrors (.runtime "storage returned the wrong append result count") entries.length
  | .ok (.capacity (.wait neededBytes availableBytes)) => ∃ entry, entries.head? = some entry ∧
    ((∃ bytes, limits.capacity = .bounded bytes .block ∧ replies = [.appendWait entry.records]) ∨
    ∃ bytes, limits.capacity = .bounded bytes .rejectNew ∧
      replies = [.append (.error (.rejectedCapacity neededBytes availableBytes))])
  | .ok (.capacity (.exceeds neededBytes totalBytes)) =>
    replies = [.append (.error (.exceedsCapacity neededBytes totalBytes))]
  | .ok (.capacity .admitted) => False
  | .ok (.failure error selected) =>
    if selected ≠ 0 ∧ selected ≤ entries.length then replies = appendErrors error selected
    else replies =
      appendErrors (.runtime "storage returned an invalid append failure scope") entries.length
  | .error error => replies = appendErrors error entries.length

/-- The jobs of the phases, with their results. -/
inductive JobResult where
  | append (entries : List AppendEntry) (result : Except Error AppendJob)
  | read (streamId : StreamId) (limits : ReadLimits) (reply : Nat)
      (result : Except Error (Option (List PendingRecord)))
  | release (entries : List ReleaseEntry) (result : Except Error Unit)
  | reclaim (reply : Nat) (result : Except Error ReclaimReport)
  | maintenance (operation : OperationKind) (result : Except Error Unit)

namespace JobResult

/-- The commands a job is for. -/
def commands : JobResult → List Command
  | append entries _ => entries.map AppendEntry.command
  | read streamId limits reply _ => [⟨reply, .read streamId limits⟩]
  | release entries _ => entries.map ReleaseEntry.command
  | reclaim reply _ => [⟨reply, .reclaim⟩]
  | maintenance _ _ => []

/-- **The replies of a job** to the first of its commands. -/
def Replies (limits : Limits) (left : Option Storage) (replies : List Reply) : JobResult → Prop
  | append entries result => AppendReplies limits left entries replies result
  | read _ _ _ result => replies = [.read result]
  | release entries (.ok ()) => replies = List.replicate entries.length (.release (.ok ()))
  | release entries (.error error) =>
    replies = errorReplies (fun error => .release (.error error)) error entries.length
  | reclaim _ result => replies = [.reclaim result]
  | maintenance _ _ => replies = []

end JobResult

namespace Reactor

/-- Runs a job of some kind. -/
def runAs {α : Type} (kind : Except Error α → JobResult) (job : StorageIo α) (jobEnd : JobEnd)
    (reactor : Reactor) : Option (JobResult × Reactor) :=
  (reactor.storageJob job jobEnd).map fun (result, left) => (kind result, left)

/-- Runs the job of the current phase. -/
def runJob (reactor : Reactor) (jobEnd : JobEnd) (clocks : JobClocks) :
    Option (JobResult × Reactor) :=
  match reactor.phase with
  | .appending entries => reactor.runAs (.append entries)
      (executeAppendJob (entries.map AppendEntry.unit) (bounded reactor.limits) clocks) jobEnd
  | .reading streamId limits reply => reactor.runAs (.read streamId limits reply) (do
      let storage ← getStorage
      onDisk (storage.read streamId limits)) jobEnd
  | .releasing entries =>
    reactor.runAs (.release entries) (releaseGroup (entries.map ReleaseEntry.unit)) jobEnd
  | .reclaiming reply => reactor.runAs (.reclaim reply) (reclaim .explicit) jobEnd
  | .maintaining => reactor.runAs (fun result => .maintenance .reclaim (result.map fun _ => ()))
      (reclaim .automatic) jobEnd
  | .rollingOver =>
    reactor.runAs (fun result => .maintenance .segmentRollover (result.map fun _ => ()))
      (sealExpired clocks.expiry) jobEnd
  | _ => none

/-- The first commands in hand get replies, the others go back to the front of the backlog, and the
loop is at its top. Besides, only the shared state and the timer change. -/
def Concluded (reactor after : Reactor) (replies : List (Command × Reply))
    (deferred : List Command) : Prop :=
  reactor.phase.inHand = replies.map Prod.fst ++ deferred ∧ ∃ shared ageTimer,
    after = { reactor with
      shared := shared
      ageTimer := ageTimer
      answered := reactor.answered ++ replies
      backlog := deferred ++ reactor.backlog
      queueDepth := if reactor.alive then reactor.queueDepth - replies.length
        else reactor.queueDepth
      phase := .top }

end Reactor

end

/-- Every admissible command fits a group of its own. -/
theorem Limits.Groups.single {limits : Limits} (valid : limits.Valid)
    (admissible : command.request.admissible limits = true) : limits.Groups [command] := by
  refine ⟨List.cons_ne_nil _ _, valid.units, command.request.kind, by simp, ?_⟩
  simp only [List.map_cons, List.map_nil, List.sum_cons, List.sum_nil, Nat.add_zero]
  unfold Request.admissible at admissible
  cases isRequest : command.request with
  | append streamId records encodedBytes =>
    rw [isRequest] at admissible
    simp only [Bool.and_eq_true, decide_eq_true_eq] at admissible
    exact admissible.2.trans valid.append
  | read streamId readLimits => exact Nat.le_refl 0
  | release streamId ids encodedBound =>
    rw [isRequest] at admissible
    simp only [Bool.and_eq_true, decide_eq_true_eq] at admissible
    obtain ⟨⟨-, few⟩, bound⟩ := admissible
    have room := valid.release
    show encodedBound ≤ Reactor.maxReleaseGroupBytes limits
    omega
  | reclaim => exact Nat.le_refl 0

/-- A group stays one with a further command of its kind that fits. -/
theorem Limits.groups_push {limits : Limits} {group : List Command} {kind : RequestKind}
    (room : group.length < limits.maxCommitUnits)
    (alike : ∀ member ∈ group, member.request.kind = kind) (same : command.request.kind = kind)
    (fits : (group.map fun command => command.request.groupBytes).sum +
      command.request.groupBytes ≤ limits.groupLimit kind) :
    limits.Groups (group ++ [command]) := by
  refine ⟨by simp, by simp only [List.length_append, List.length_cons, List.length_nil]; omega, kind,
    ?_, by simpa using fits⟩
  intro member isMember
  rcases List.mem_append.mp isMember with old | new
  · exact alike member old
  · obtain rfl := List.mem_singleton.mp new
    exact same

/-! ### Steps that touch nothing of this -/

/-- The reactor changed at most the shared state and the timer. -/
def Reactor.Touched (before after : Reactor) : Prop :=
  ∃ shared ageTimer, after = { before with shared := shared, ageTimer := ageTimer }

namespace Reactor

variable {rootId : RootId} {reactor after : Reactor} {replies : List (Command × Reply)}
  {deferred : List Command}

theorem Touched.refl (reactor : Reactor) : reactor.Touched reactor := ⟨_, _, rfl⟩

theorem Touched.trans {middle : Reactor} (first : reactor.Touched middle)
    (second : middle.Touched after) : reactor.Touched after := by
  obtain ⟨shared, timer, rfl⟩ := first
  obtain ⟨shared, timer, rfl⟩ := second
  exact ⟨_, _, rfl⟩

theorem touched_markPoisoned (operation : OperationKind) (error : Error) :
    reactor.Touched (reactor.markPoisoned operation error) := by
  unfold markPoisoned
  split
  · exact ⟨_, _, rfl⟩
  · exact .refl _

theorem touched_poisonFor (operation : OperationKind) (error : Error) :
    reactor.Touched (reactor.poisonFor operation error) := by
  unfold poisonFor
  split
  · exact touched_markPoisoned _ _
  · exact .refl _

theorem touched_poisonIf (operation : OperationKind) (error : Option Error) :
    reactor.Touched (reactor.poisonIf operation error) := by
  cases error with
  | none => exact .refl _
  | some error => exact touched_markPoisoned _ _

theorem touched_publishStorage : reactor.Touched reactor.publishStorage := by
  unfold publishStorage
  split
  · exact .refl _
  · split
    · exact .refl _
    · exact touched_markPoisoned _ _

theorem touched_observeAgeTimer (clock : Clock) :
    reactor.Touched (reactor.observeAgeTimer clock) := by
  unfold observeAgeTimer
  split
  · exact ⟨_, _, rfl⟩
  · split
    · exact ⟨_, _, rfl⟩
    · exact (touched_markPoisoned _ _).trans ⟨_, _, rfl⟩

theorem touched_poisonOnError {α : Type} (operation : OperationKind) (result : Except Error α) :
    reactor.Touched (reactor.poisonOnError operation result) := by
  cases result with
  | ok value => exact .refl _
  | error error => exact touched_poisonFor _ _

theorem Touched.phase (touched : reactor.Touched after) (phase : Phase) :
    ({ reactor with phase := phase } : Reactor).Touched { after with phase := phase } := by
  obtain ⟨_, _, rfl⟩ := touched
  exact ⟨_, _, rfl⟩

theorem Touched.inHand (touched : reactor.Touched after) :
    after.phase.inHand = reactor.phase.inHand := by
  obtain ⟨_, _, rfl⟩ := touched
  rfl

theorem Serves.touched (serves : reactor.Serves rootId) (touched : reactor.Touched after) :
    after.Serves rootId := by
  obtain ⟨shared, timer, rfl⟩ := touched
  exact ⟨serves.fifo, serves.numbered, serves.admissible, serves.replies, serves.groups,
    serves.ordered, serves.depth, serves.sound, serves.root, serves.valid⟩

/-! ### Steps of the loop -/

/-- A step that moves commands between the phase and the queues and keeps their order. -/
theorem Serves.shift (serves : reactor.Serves rootId) {phase : Phase} {backlog channel : List Command}
    (same : phase.inHand ++ (backlog ++ channel) =
      reactor.phase.inHand ++ (reactor.backlog ++ reactor.channel))
    (sound : phase.Sound reactor.limits backlog channel) :
    ({ reactor with backlog := backlog, channel := channel, phase := phase } : Reactor).Serves
      rootId where
  fifo := by rw [serves.fifo, same]
  numbered := serves.numbered
  admissible := serves.admissible
  replies := serves.replies
  groups := serves.groups
  ordered := serves.ordered
  depth := serves.depth
  sound := sound
  root := serves.root
  valid := serves.valid

/-- A step that only moves to a phase with the same commands in hand. -/
theorem Serves.move (serves : reactor.Serves rootId) {phase : Phase}
    (same : phase.inHand = reactor.phase.inHand)
    (sound : phase.Sound reactor.limits reactor.backlog reactor.channel) :
    ({ reactor with phase := phase } : Reactor).Serves rootId :=
  serves.shift (by rw [same]) sound

/-- The commands in hand are handed to a storage job. -/
theorem Serves.hand (serves : reactor.Serves rootId) {phase : Phase}
    (same : phase.inHand = reactor.phase.inHand) (groups : reactor.limits.Groups phase.inHand)
    (sound : phase.Sound reactor.limits reactor.backlog reactor.channel) :
    (reactor.hand phase).Serves rootId := by
  have moved := serves.move same sound
  refine ⟨moved.fifo, moved.numbered, moved.admissible, moved.replies, ?_, ?_, moved.depth,
    moved.sound, moved.root, moved.valid⟩
  · intro entry member
    rcases List.mem_append.mp member with old | new
    · exact serves.groups entry old
    · obtain rfl := List.mem_singleton.mp new
      refine ⟨groups, ?_, Nat.le_refl _⟩
      have whole : (reactor.hand phase).admitted = reactor.answered.map Prod.fst ++
        (phase.inHand ++ (reactor.backlog ++ reactor.channel)) := moved.fifo
      rw [whole, List.drop_left' (by simp)]
      exact List.prefix_append _ _
  · show (List.map Prod.fst (reactor.handed ++ [(reactor.answered.length, phase.inHand)])).Pairwise _
    rw [List.map_append, List.pairwise_append]
    refine ⟨serves.ordered, by simp, fun first isFirst last isLast => ?_⟩
    obtain ⟨entry, member, rfl⟩ := List.mem_map.mp isFirst
    obtain rfl := List.mem_singleton.mp isLast
    exact (serves.groups entry member).2.2

/-- **The end of a step that answers.** -/
theorem Serves.conclude (serves : reactor.Serves rootId)
    (concluded : reactor.Concluded after replies deferred)
    (answers : ∀ entry ∈ replies, entry.2.Answers rootId entry.1) : after.Serves rootId := by
  obtain ⟨inHand, shared, timer, rfl⟩ := concluded
  exact {
    fifo := by
      rw [serves.fifo, inHand]
      simp [Phase.inHand]
    numbered := serves.numbered
    admissible := serves.admissible
    replies := by
      intro entry member
      rcases List.mem_append.mp member with old | new
      · exact serves.replies entry old
      · exact answers entry new
    groups := by
      intro entry member
      obtain ⟨groups, part, before⟩ := serves.groups entry member
      exact ⟨groups, part, by simp only [List.length_append]; omega⟩
    ordered := serves.ordered
    depth := by
      intro alive
      have isAlive : reactor.alive = true := alive
      have depth := serves.depth isAlive
      have total := congrArg List.length serves.fifo
      rw [inHand] at total
      simp only [List.length_append, List.length_map] at total
      simp only [isAlive, if_true, List.length_append]
      omega
    sound := trivial
    root := serves.root
    valid := serves.valid }

theorem popNext_eq_some {rest : Reactor} (popped : reactor.popNext = some (command, rest)) :
    ∃ backlog channel, rest = { reactor with backlog := backlog, channel := channel } ∧
      reactor.backlog ++ reactor.channel = command :: (backlog ++ channel) ∧
      (reactor.backlog = [] → backlog = []) := by
  unfold Reactor.popNext at popped
  split at popped
  · rename_i first others isBacklog
    cases popped
    exact ⟨others, reactor.channel, rfl, by rw [isBacklog]; rfl,
      fun empty => by rw [empty] at isBacklog; cases isBacklog⟩
  · rename_i isBacklog
    split at popped
    · rename_i first others isChannel
      cases popped
      exact ⟨reactor.backlog, others, rfl, by rw [isBacklog, isChannel]; rfl, id⟩
    · cases popped

/-- A step that takes the next command in hand, after those that are in hand. -/
theorem Serves.take (serves : reactor.Serves rootId) {phase : Phase}
    (next : reactor.backlog ++ reactor.channel = command :: (backlog ++ channel))
    (inHand : phase.inHand = reactor.phase.inHand ++ [command])
    (sound : phase.Sound reactor.limits backlog channel) :
    ({ reactor with backlog := backlog, channel := channel, phase := phase } : Reactor).Serves
      rootId :=
  serves.shift (by rw [inHand, next, List.append_assoc, List.singleton_append]) sound

/-- A step that puts the command it looked at back to the front of the backlog. -/
theorem Serves.putBack (serves : reactor.Serves rootId)
    (next : reactor.backlog ++ reactor.channel = command :: (backlog ++ channel))
    (sound : reactor.phase.Sound reactor.limits (command :: backlog) channel) :
    ({ reactor with backlog := command :: backlog, channel := channel } : Reactor).Serves rootId :=
  serves.shift (by rw [next, List.cons_append]) sound

theorem Serves.markAdmitted (serves : reactor.Serves rootId) {request : Request}
    (going : reactor.isOver = false) (admissible : request.admissible reactor.limits = true) :
    (reactor.markAdmitted request).Serves rootId where
  fifo := by
    simp only [Reactor.markAdmitted]
    rw [serves.fifo]
    simp
  numbered := by
    simp only [Reactor.markAdmitted, List.map_append, List.map_cons, List.map_nil, List.length_append,
      List.length_cons, List.length_nil, Nat.zero_add, List.range_succ]
    rw [serves.numbered]
  admissible := by
    intro command member
    rcases List.mem_append.mp member with old | new
    · exact serves.admissible command old
    · obtain rfl := List.mem_singleton.mp new
      exact admissible
  replies := serves.replies
  groups := by
    intro entry member
    obtain ⟨groups, part, before⟩ := serves.groups entry member
    refine ⟨groups, part.trans ?_, before⟩
    have bound : entry.1 ≤ reactor.admitted.length := by
      have total := congrArg List.length serves.fifo
      simp only [List.length_append, List.length_map] at total
      omega
    show reactor.admitted.drop entry.1 <+: (reactor.admitted ++ [_]).drop entry.1
    rw [List.drop_append_of_le_length bound]
    exact List.prefix_append _ _
  ordered := serves.ordered
  depth := by
    intro alive
    have depth := serves.depth alive
    simp only [Reactor.markAdmitted, List.length_append, List.length_cons, List.length_nil]
    omega
  sound := by
    have sound := serves.sound
    unfold Reactor.isOver at going
    simp only [Reactor.markAdmitted]
    generalize reactor.phase = phase at sound going
    cases phase <;> first | exact sound | cases going
  root := serves.root
  valid := serves.valid

theorem Serves.loop (serves : reactor.Serves rootId) (atTop : reactor.phase = .top) :
    reactor.loop.Serves rootId := by
  have hand : reactor.phase.inHand = [] := by rw [atTop]; rfl
  have waits : ({ reactor with phase := .waiting } : Reactor).Serves rootId :=
    serves.move (by rw [hand]; rfl) trivial
  unfold Reactor.loop
  split
  · rename_i idle
    simp only [Bool.and_eq_true, decide_eq_true_eq] at idle
    split
    · exact waits
    · split
      · exact serves.move (by rw [hand]; rfl) trivial
      · exact waits
      · exact serves.move (by rw [hand]; rfl) ⟨rfl, idle.1.2, idle.2⟩
  · exact waits

theorem popNext_eq_none (none : reactor.popNext = none) :
    reactor.backlog = [] ∧ reactor.channel = [] := by
  unfold Reactor.popNext at none
  split at none
  · cases none
  · split at none
    · cases none
    · exact ⟨by assumption, by assumption⟩

theorem Serves.seek (serves : reactor.Serves rootId) (waiting : reactor.phase = .waiting) :
    reactor.seek.Serves rootId := by
  have hand : reactor.phase.inHand = [] := by rw [waiting]; rfl
  unfold Reactor.seek
  split
  · rename_i command rest popped
    obtain ⟨backlog, channel, rfl, next, -⟩ := popNext_eq_some popped
    split
    · exact serves.take next (by rw [hand]; rfl) trivial
    · rename_i blocked
      simp only [Bool.or_eq_true, decide_eq_true_eq, not_or, not_not] at blocked
      exact serves.move (by rw [hand]; rfl) blocked.1
  · rename_i none
    obtain ⟨emptyBacklog, emptyChannel⟩ := popNext_eq_none none
    split
    · exact serves.move (by rw [hand]; rfl) ⟨emptyBacklog, emptyChannel⟩
    · exact serves.move (by rw [hand]; rfl) emptyBacklog

theorem Serves.wake (serves : reactor.Serves rootId) {running : Bool} {wake : Wake}
    (selecting : reactor.phase = .selecting running) (woken : reactor.wake running wake = some after) :
    after.Serves rootId := by
  have hand : reactor.phase.inHand = [] := by rw [selecting]; rfl
  have empty : reactor.backlog = [] := by
    have sound := serves.sound
    rwa [selecting] at sound
  cases wake with
  | command =>
    simp only [Reactor.wake] at woken
    split at woken
    · rename_i command rest isChannel
      cases woken
      have next : reactor.backlog ++ reactor.channel = command :: (reactor.backlog ++ rest) := by
        rw [empty, isChannel]
        rfl
      exact serves.take next (by rw [hand]; rfl) trivial
    · rename_i isChannel
      split at woken
      · cases woken
      · cases woken
        exact serves.move (by rw [hand]; rfl) ⟨empty, isChannel⟩
  | shutdown =>
    obtain ⟨-, woken⟩ := Option.ite_none_right_eq_some.mp woken
    cases woken
    have moved := serves.move (by rw [hand]; rfl : Phase.top.inHand = _) trivial
    exact ⟨moved.fifo, moved.numbered, moved.admissible, moved.replies, moved.groups, moved.ordered,
      moved.depth, moved.sound, moved.root, moved.valid⟩
  | timer =>
    obtain ⟨-, woken⟩ := Option.ite_none_right_eq_some.mp woken
    cases woken
    exact serves.move (by rw [hand]; rfl) trivial

theorem rejectPoisoned_answers (command : Command) :
    (rejectPoisoned command).Answers rootId command := by
  unfold rejectPoisoned
  split <;> rename_i isRequest <;> simp [Reply.Answers, isRequest, Request.kind]

theorem concluded_answer {middle : Reactor} (touched : reactor.Touched middle)
    (inHand : reactor.phase.inHand = replies.map Prod.fst ++ deferred)
    (counted : count = replies.length) :
    reactor.Concluded
      { (({ middle with backlog := deferred ++ middle.backlog } : Reactor).answer
        replies).markCompleted count with phase := .top } replies deferred := by
  obtain ⟨shared, timer, rfl⟩ := touched
  refine ⟨inHand, shared, timer, ?_⟩
  rw [counted]
  unfold Reactor.markCompleted Reactor.answer
  cases isAlive : reactor.alive <;> rfl

theorem Concluded.touched {final : Reactor} (concluded : reactor.Concluded after replies deferred)
    (touched : after.Touched final) : reactor.Concluded final replies deferred := by
  obtain ⟨inHand, _, _, rfl⟩ := concluded
  obtain ⟨shared, timer, rfl⟩ := touched
  exact ⟨inHand, shared, timer, rfl⟩

theorem Serves.dispatch (serves : reactor.Serves rootId) (taken : reactor.phase = .taken command) :
    (reactor.dispatch command).Serves rootId := by
  have hand : reactor.phase.inHand = [command] := by rw [taken]; rfl
  have member : command ∈ reactor.admitted := by
    rw [serves.fifo, hand]
    simp
  have single := Limits.Groups.single serves.valid (serves.admissible command member)
  unfold Reactor.dispatch
  split
  · have concluded : reactor.Concluded _ [(command, rejectPoisoned command)] [] :=
      concluded_answer (.refl _) hand rfl
    exact serves.conclude concluded (List.forall_mem_singleton.mpr (rejectPoisoned_answers command))
  · obtain ⟨reply, request⟩ := command
    cases request with
    | append streamId records encodedBytes =>
      exact serves.move (by rw [hand]; rfl) ⟨single, by simp⟩
    | read streamId limits => exact serves.hand (by rw [hand]; rfl) single trivial
    | release streamId ids encodedBound =>
      exact serves.move (by rw [hand]; rfl) ⟨single, by simp⟩
    | reclaim => exact serves.hand (by rw [hand]; rfl) single trivial

theorem kind_appends (entries : List AppendEntry) :
    ∀ command ∈ entries.map AppendEntry.command, command.request.kind = .append := by
  intro command member
  obtain ⟨entry, -, rfl⟩ := List.mem_map.mp member
  rfl

theorem kind_releases (entries : List ReleaseEntry) :
    ∀ command ∈ entries.map ReleaseEntry.command, command.request.kind = .release := by
  intro command member
  obtain ⟨entry, -, rfl⟩ := List.mem_map.mp member
  rfl

theorem groupBytes_appends (entries : List AppendEntry) :
    ((entries.map AppendEntry.command).map fun command => command.request.groupBytes).sum =
      (entries.map AppendEntry.encodedBytes).sum := by
  rw [List.map_map]
  rfl

theorem groupBytes_releases (entries : List ReleaseEntry) :
    ((entries.map ReleaseEntry.command).map fun command => command.request.groupBytes).sum =
      (entries.map ReleaseEntry.encodedBound).sum := by
  rw [List.map_map]
  rfl

/-- Something was looked at and put back, and the job starts. -/
theorem Serves.handAfter (serves : reactor.Serves rootId) {rest : Reactor}
    (popped : reactor.popNext = some (command, rest)) {phase : Phase}
    (same : phase.inHand = reactor.phase.inHand) (groups : reactor.limits.Groups phase.inHand)
    (sound : ∀ backlog channel, reactor.phase.Sound reactor.limits backlog channel)
    (nextSound : ∀ backlog channel, phase.Sound reactor.limits backlog channel) :
    (({ rest with backlog := command :: rest.backlog } : Reactor).hand phase).Serves rootId := by
  obtain ⟨backlog, channel, rfl, next, -⟩ := popNext_eq_some popped
  exact (serves.putBack next (sound _ _)).hand same groups (nextSound _ _)

theorem Serves.gatherAppend (serves : reactor.Serves rootId) {entries : List AppendEntry}
    {groupBytes : Nat} {groupRecords : Highwaters}
    (gathering : reactor.phase = .gatheringAppends entries groupBytes groupRecords) :
    (reactor.gatherAppend entries groupBytes groupRecords).Serves rootId := by
  have sound := serves.sound
  rw [gathering] at sound
  obtain ⟨groups, total⟩ := sound
  have same : (Phase.appending entries).inHand = reactor.phase.inHand := by rw [gathering]; rfl
  have nonempty : entries ≠ [] := fun empty => groups.nonempty (by rw [empty]; rfl)
  have anySound : ∀ backlog channel, reactor.phase.Sound reactor.limits backlog channel := by
    intro backlog channel
    rw [gathering]
    exact ⟨groups, total⟩
  have starts : (reactor.hand (.appending entries)).Serves rootId :=
    serves.hand same groups nonempty
  unfold Reactor.gatherAppend
  split
  · rename_i room
    split
    · exact starts
    · rename_i next rest popped
      have deferred := serves.handAfter popped same groups anySound fun _ _ => nonempty
      split
      · rename_i streamId records encodedBytes isAppend
        simp only
        split
        · rename_i fits
          obtain ⟨backlog, channel, rfl, nextIs, -⟩ := popNext_eq_some popped
          have command : next = (⟨streamId, records, encodedBytes, next.reply⟩ : AppendEntry).command := by
            rw [AppendEntry.command, ← isAppend]
          have bytesFit : groupBytes + encodedBytes ≤ reactor.limits.maxAppendGroupBytes := by
            simp only [Reactor.appendFits, Bool.and_eq_true, Option.any_eq_true] at fits
            obtain ⟨-, bytes, added, small⟩ := fits
            obtain ⟨rfl, -⟩ := checkedAdd_eq_some.mp added
            simpa using small
          refine serves.take nextIs ?_ ⟨?_, ?_⟩
          · rw [gathering]
            simp only [Phase.inHand, List.map_append, List.map_cons, List.map_nil, ← command]
          · rw [List.map_append, List.map_cons, List.map_nil]
            refine Limits.groups_push (by simpa using room) (kind_appends entries) rfl ?_
            rw [groupBytes_appends, ← total]
            exact bytesFit
          · simp [total]
        · exact deferred
      · exact deferred
  · exact starts

theorem Serves.gatherRelease (serves : reactor.Serves rootId) {entries : List ReleaseEntry}
    {groupBytes : Nat} (gathering : reactor.phase = .gatheringReleases entries groupBytes) :
    (reactor.gatherRelease entries groupBytes).Serves rootId := by
  have sound := serves.sound
  rw [gathering] at sound
  obtain ⟨groups, total⟩ := sound
  have same : (Phase.releasing entries).inHand = reactor.phase.inHand := by rw [gathering]; rfl
  have anySound : ∀ backlog channel, reactor.phase.Sound reactor.limits backlog channel := by
    intro backlog channel
    rw [gathering]
    exact ⟨groups, total⟩
  have starts : (reactor.hand (.releasing entries)).Serves rootId :=
    serves.hand same groups trivial
  unfold Reactor.gatherRelease
  split
  · rename_i room
    split
    · exact starts
    · rename_i next rest popped
      have deferred := serves.handAfter popped same groups anySound fun _ _ => trivial
      split
      · rename_i streamId ids encodedBound isRelease
        split
        · rename_i fits
          obtain ⟨backlog, channel, rfl, nextIs, -⟩ := popNext_eq_some popped
          have command : next = (⟨streamId, ids, encodedBound, next.reply⟩ : ReleaseEntry).command := by
            rw [ReleaseEntry.command, ← isRelease]
          have bytesFit : groupBytes + encodedBound ≤ maxReleaseGroupBytes reactor.limits := by
            obtain ⟨bytes, added, small⟩ := (Option.any_eq_true _ _).mp fits
            obtain ⟨rfl, -⟩ := checkedAdd_eq_some.mp added
            simpa using small
          refine serves.take nextIs ?_ ⟨?_, ?_⟩
          · rw [gathering]
            simp only [Phase.inHand, List.map_append, List.map_cons, List.map_nil, ← command]
          · rw [List.map_append, List.map_cons, List.map_nil]
            refine Limits.groups_push (by simpa using room) (kind_releases entries) rfl ?_
            rw [groupBytes_releases, ← total]
            exact bytesFit
          · simp [total]
        · exact deferred
      · exact deferred
  · exact starts

end Reactor

/-! ### Results of jobs -/

theorem mem_errorReplies {reply : Error → Reply} {error : Error} {answer : Reply}
    (member : answer ∈ errorReplies reply error count) : ∃ reason, answer = reply reason := by
  cases count with
  | zero => cases member
  | succ others =>
    rcases List.mem_cons.mp member with rfl | copied
    · exact ⟨error, rfl⟩
    · exact ⟨_, List.eq_of_mem_replicate copied⟩

/-- A verdict covers the entries of its group in order: the first are answered, each with a reply for
its own command, and counted; the others are deferred. -/
structure AppendVerdict.Covers (rootId : RootId) (entries : List AppendEntry) (replies : List Reply)
    (verdict : AppendVerdict) : Prop where
  all : entries = verdict.answered.map Prod.fst ++ verdict.deferred
  counted : verdict.completed = verdict.answered.length
  answers : ∀ entry ∈ verdict.answered, entry.2.Answers rootId entry.1.command
  replies : verdict.answered.map Prod.snd = replies

section Verdicts

variable {rootId : RootId} {entries : List AppendEntry} {error : Error} {failure : Option Error}

/-- Entries that are answered with errors. -/
theorem covers_appendErrors {answered : List (AppendEntry × Reply)} {deferred : List AppendEntry}
    (isCommands : answered.map Prod.fst = entries)
    (isReplies : answered.map Prod.snd = appendErrors error count) (counted : count = entries.length) :
    AppendVerdict.Covers rootId (entries ++ deferred) (appendErrors error count)
      ⟨answered, deferred, count, failure⟩ where
  all := by rw [isCommands]
  counted := by rw [counted, ← isCommands, List.length_map]
  answers := by
    intro entry member
    have isReply : entry.2 ∈ answered.map Prod.snd := List.mem_map_of_mem member
    rw [isReplies] at isReply
    obtain ⟨reason, isError⟩ := mem_errorReplies isReply
    rw [isError]
    rfl
  replies := isReplies

theorem covers_replyAppendError (answered deferred : List AppendEntry) {count : Nat}
    (counted : count = answered.length) :
    AppendVerdict.Covers rootId (answered ++ deferred) (appendErrors error count)
      ⟨replyAppendError answered error, deferred, count, failure⟩ := by
  refine covers_appendErrors ?_ ?_ counted
  · cases answered with
    | nil => rfl
    | cons first rest => simp [replyAppendError, List.map_fst_zip]
  · rw [counted]
    cases answered with
    | nil => rfl
    | cons first rest => simp [replyAppendError, appendErrors, errorReplies, List.map_snd_zip]

theorem covers_replyWrongCount (uncopied : error.copyNonpoisoning = none) :
    AppendVerdict.Covers rootId entries (appendErrors error entries.length)
      ⟨replyWrongCount entries error, [], entries.length, failure⟩ := by
  have covers : AppendVerdict.Covers rootId (entries ++ []) (appendErrors error entries.length)
      ⟨replyWrongCount entries error, [], entries.length, failure⟩ := by
    refine covers_appendErrors ?_ ?_ rfl
    · cases entries with
      | nil => rfl
      | cons first rest => simp [replyWrongCount, Function.comp_def]
    · cases entries with
      | nil => rfl
      | cons first rest => simp [replyWrongCount, appendErrors, errorReplies, uncopied, Function.comp_def]
  rwa [List.append_nil] at covers

theorem covers_answerFirst {first : AppendEntry} {rest : List AppendEntry}
    {reply : AppendEntry → Reply} (answers : (reply first).Answers rootId first.command) :
    AppendVerdict.Covers rootId (first :: rest) [reply first] (answerFirst (first :: rest) reply) :=
  ⟨rfl, rfl, List.forall_mem_singleton.mpr answers, rfl⟩

section

variable [Hasher]

theorem zip_append_answers {epochs : List Epoch}
    (isUnits : entries.map AppendEntry.unit = epochs.map Epoch.unit) :
    ∀ entry ∈ entries.zip ((epochs.map (Epoch.ids rootId)).map fun ids => Reply.append (.ok ids)),
      entry.2.Answers rootId entry.1.command := by
  induction entries generalizing epochs with
  | nil => simp
  | cons first rest ih =>
    cases epochs with
    | nil => cases isUnits
    | cons epoch later =>
      obtain ⟨isUnit, others⟩ := List.cons.inj isUnits
      refine List.forall_mem_cons.mpr ⟨⟨_, _, _, epoch.firstSequence, rfl, ?_⟩, ih others⟩
      obtain ⟨isStream, isRecords⟩ := AppendUnit.mk.inj isUnit
      rw [isStream, isRecords]

theorem covers_complete {storage : Storage} {outputs : List (List RecordId)} {selected : Nat}
    (stores : storage.Stores ((entries.take selected).map AppendEntry.unit) outputs)
    (within : selected ≤ entries.length) (counted : outputs.length = selected) :
    AppendVerdict.Covers storage.rootId entries (outputs.map fun ids => .append (.ok ids)) {
      answered := (entries.take selected).zip (outputs.map fun ids => .append (.ok ids))
      deferred := entries.drop selected
      completed := selected
      failure := none } := by
  have taken : (entries.take selected).length = selected := List.length_take_of_le within
  refine ⟨?_, ?_, ?_, List.map_snd_zip (by simp [taken, counted])⟩
  · rw [List.map_fst_zip (by simp [taken, counted]), List.take_append_drop]
  · simp only [List.length_zip, List.length_map, taken, counted, Nat.min_self]
  · obtain ⟨epochs, isUnits, rfl, -⟩ := stores
    exact zip_append_answers isUnits

/-- **Every result of an append job** that can occur leads to a verdict that covers the group. -/
theorem appendVerdict_covers {limits : Limits} {left : Option Storage} (nonempty : entries ≠ [])
    (possible : ∀ job, result = .ok job → ∃ storage, left = some storage ∧ storage.rootId = rootId ∧
      job.Possible storage (entries.map AppendEntry.unit) (Reactor.bounded limits)) :
    ∃ verdict replies, appendVerdict limits.capacity entries result = some verdict ∧
      verdict.Covers rootId entries replies ∧ AppendReplies limits left entries replies result := by
  obtain ⟨first, rest, rfl⟩ := List.exists_cons_of_ne_nil nonempty
  match result, possible with
  | .error error, _ =>
    refine ⟨_, _, rfl, ?_, rfl⟩
    simpa using covers_replyAppendError (first :: rest) [] rfl
  | .ok (.failure error selected), _ =>
    simp only [appendVerdict, AppendReplies, Bool.and_eq_true, decide_eq_true_eq]
    split
    · rename_i inScope
      refine ⟨_, _, rfl, ?_, rfl⟩
      have covers := @covers_replyAppendError rootId error none ((first :: rest).take selected)
        ((first :: rest).drop selected) selected (List.length_take_of_le inScope.2).symm
      rwa [List.take_append_drop] at covers
    · refine ⟨_, _, rfl, ?_, rfl⟩
      simpa using covers_replyAppendError (first :: rest) [] rfl
  | .ok (.capacity .admitted), possible =>
    obtain ⟨storage, -, -, -, refused⟩ := possible _ rfl
    exact absurd rfl refused
  | .ok (.capacity (.exceeds neededBytes totalBytes)), _ =>
    exact ⟨_, _, rfl, covers_answerFirst rfl, rfl⟩
  | .ok (.capacity (.wait neededBytes availableBytes)), possible =>
    obtain ⟨storage, -, -, isBounded, -⟩ := possible _ rfl
    cases capacity : limits.capacity with
    | unbounded => simp [Reactor.bounded, capacity] at isBounded
    | bounded totalBytes policy =>
      cases policy with
      | block => exact ⟨_, _, rfl, covers_answerFirst ⟨_, _, rfl⟩, first, rfl, .inl ⟨_, capacity, rfl⟩⟩
      | rejectNew => exact ⟨_, _, rfl, covers_answerFirst rfl, first, rfl, .inr ⟨_, capacity, rfl⟩⟩
  | .ok (.complete outputs selected), possible =>
    obtain ⟨storage, isLeft, rfl, stores⟩ := possible _ rfl
    rw [AppendJob.Possible, ← List.map_take] at stores
    simp only [appendVerdict, AppendReplies, Bool.and_eq_true, decide_eq_true_eq, and_assoc]
    split
    · rename_i inScope
      exact ⟨_, _, rfl, covers_complete stores inScope.2.1 inScope.2.2, ⟨storage, isLeft, stores⟩, rfl⟩
    · exact ⟨_, _, rfl, covers_replyWrongCount rfl, ⟨storage, isLeft, stores⟩, rfl⟩

end

theorem replyReleases_fst (entries : List ReleaseEntry) (result : Except Error Unit) :
    (replyReleases entries result).map Prod.fst = entries.map ReleaseEntry.command := by
  match result, entries with
  | .ok (), entries => simp [replyReleases, Function.comp_def]
  | .error error, [] => rfl
  | .error error, first :: rest =>
    simp only [replyReleases, List.map_cons]
    rw [List.map_fst_zip (by simp)]

theorem replyReleases_replies [Hasher] {limits : Limits} {left : Option Storage} (entries : List ReleaseEntry)
    (result : Except Error Unit) :
    (JobResult.release entries result).Replies limits left
      ((replyReleases entries result).map Prod.snd) := by
  match result, entries with
  | .ok (), entries => simp [JobResult.Replies, replyReleases, Function.comp_def]
  | .error error, [] => rfl
  | .error error, first :: rest =>
    simp [JobResult.Replies, replyReleases, errorReplies, List.map_snd_zip]

theorem replyReleases_answers (entries : List ReleaseEntry) (result : Except Error Unit) :
    ∀ entry ∈ replyReleases entries result, entry.2.Answers rootId entry.1 := by
  match result, entries with
  | .ok (), entries =>
    intro entry member
    obtain ⟨original, -, rfl⟩ := List.mem_map.mp member
    rfl
  | .error error, [] => simp [replyReleases]
  | .error error, first :: rest =>
    refine List.forall_mem_cons.mpr ⟨rfl, fun entry member => ?_⟩
    obtain ⟨isCommand, isReply⟩ := List.of_mem_zip member
    obtain ⟨original, -, same⟩ := List.mem_map.mp isCommand
    obtain ⟨_, -, sameReply⟩ := List.mem_map.mp isReply
    rw [← same, ← sameReply]
    rfl

end Verdicts

namespace Reactor

variable {rootId : RootId} {reactor after : Reactor}

section

variable [Hasher]

/-- A storage job changes the files and the storage; what it returned, it returned on the storage of
this root. -/
theorem storageJob_eq_some {α : Type} {job : StorageIo α} {result : Except Error α}
    (ran : reactor.storageJob job jobEnd = some (result, after)) :
    ∃ fs storage, after = { reactor with fs := fs, storage := storage } ∧
      (∀ left, storage = some left → ∃ before, reactor.storage = some before ∧
        (left = before ∨ ∃ faults, left = (job.run ⟨before, reactor.fs⟩ faults).2.1.storage)) ∧
      ∀ value, result = .ok value → ∃ before world, reactor.storage = some before ∧
        storage = some world.storage ∧ Returns job ⟨before, reactor.fs⟩ value world := by
  unfold Reactor.storageJob at ran
  split at ran
  · cases ran
    exact ⟨_, _, rfl, fun left isLeft => ⟨left, isLeft, .inl rfl⟩, nofun⟩
  · rename_i storage isStorage
    cases jobEnd with
    | lost fs =>
      cases ran
      exact ⟨_, _, rfl, nofun, nofun⟩
    | ran faults =>
      simp only at ran
      have left : ∀ world : World, (job.run ⟨storage, reactor.fs⟩ faults).2.1 = world →
          ∀ left, some world.storage = some left → ∃ before, reactor.storage = some before ∧
            (left = before ∨ ∃ faults, left = (job.run ⟨before, reactor.fs⟩ faults).2.1.storage) := by
        rintro world rfl left isLeft
        cases isLeft
        exact ⟨storage, isStorage, .inr ⟨faults, rfl⟩⟩
      split at ran
      · rename_i value world _ ended
        cases ran
        refine ⟨_, _, rfl, left world (by rw [ended]), fun found isValue => ?_⟩
        cases isValue
        exact ⟨storage, world, isStorage, rfl, faults, by rw [ended], by rw [ended]⟩
      all_goals try cases ran
      all_goals
        rename_i error world _ ended
        split at ran <;> cases ran
        · exact ⟨_, _, rfl, left world (by rw [ended]), nofun⟩
        · exact ⟨_, _, rfl, nofun, nofun⟩

theorem requeueAppends_eq (deferred : List AppendEntry) :
    reactor.requeueAppends deferred =
      { reactor with backlog := deferred.map AppendEntry.command ++ reactor.backlog } := by
  simp only [requeueAppends, List.foldl_reverse]
  congr 1
  induction deferred with
  | nil => rfl
  | cons entry rest ih => rw [List.foldr_cons, ih]; rfl

/-- What the reactor does with the result of a job. -/
def finishJob (clock : Clock) (reactor : Reactor) : JobResult → Reactor
  | .append entries result => reactor.finishAppends entries result clock
  | .read streamId limits reply result => reactor.finishRead ⟨reply, .read streamId limits⟩ result
  | .release entries result => reactor.finishReleases entries result
  | .reclaim reply result => reactor.finishReclaim ⟨reply, .reclaim⟩ result clock
  | .maintenance operation result => reactor.finishMaintenance operation result clock

theorem finishMaintenance_map {α : Type} (operation : OperationKind) (result : Except Error α)
    (clock : Clock) :
    reactor.finishMaintenance operation (result.map fun _ => ()) clock =
      reactor.finishMaintenance operation result clock := by
  cases result <;> rfl

theorem endJob_eq (clocks : JobClocks) (clock : Clock) :
    reactor.endJob jobEnd clocks clock =
      (reactor.runJob jobEnd clocks).map fun (result, left) => left.finishJob clock result := by
  unfold Reactor.endJob Reactor.runJob
  generalize reactor.phase = phase
  cases phase <;> simp [runAs, Function.comp_def, finishJob, finishMaintenance_map]

/-- What the result of a job of this root may be, in the state it left. -/
structure Ran (rootId : RootId) (left : Reactor) (result : JobResult) : Prop where
  inHand : left.phase.inHand = result.commands
  append : ∀ entries appended, result = .append entries appended → entries ≠ [] ∧
    ∀ job, appended = .ok job → ∃ storage, left.storage = some storage ∧ storage.rootId = rootId ∧
      job.Possible storage (entries.map AppendEntry.unit) (bounded left.limits)

theorem Serves.runAs (serves : reactor.Serves rootId) {α : Type} {kind : Except Error α → JobResult}
    {job : StorageIo α} {result : JobResult} (keeps : Keeps Storage.identity job)
    (ran : reactor.runAs kind job jobEnd = some (result, after)) :
    ∃ value, result = kind value ∧ reactor.storageJob job jobEnd = some (value, after) ∧
      after.Serves rootId ∧ after.phase = reactor.phase := by
  obtain ⟨⟨value, left⟩, ends, same⟩ := Option.map_eq_some_iff.mp ran
  cases same
  refine ⟨value, rfl, ends, ?_⟩
  obtain ⟨fs, storage, rfl, left, -⟩ := storageJob_eq_some ends
  refine ⟨⟨serves.fifo, serves.numbered, serves.admissible, serves.replies, serves.groups,
    serves.ordered, serves.depth, serves.sound, fun remaining isLeft => ?_, serves.valid⟩, rfl⟩
  obtain ⟨before, isBefore, same | ⟨faults, rfl⟩⟩ := left remaining isLeft
  · rw [same]
    exact serves.root before isBefore
  · rw [← serves.root before isBefore]
    exact congrArg Prod.fst (keeps ⟨before, reactor.fs⟩ faults)

theorem Serves.runJob (serves : reactor.Serves rootId) {clocks : JobClocks} {result : JobResult}
    (ran : reactor.runJob jobEnd clocks = some (result, after)) :
    after.Serves rootId ∧ after.Ran rootId result := by
  unfold Reactor.runJob at ran
  split at ran
  · rename_i entries appending
    obtain ⟨appended, rfl, ends, stays, samePhase⟩ := serves.runAs (keeps_executeAppendJob _ _ _) ran
    refine ⟨stays, by rw [samePhase, appending]; rfl, ?_⟩
    rintro _ _ ⟨⟩
    have sound := stays.sound
    rw [samePhase, appending] at sound
    refine ⟨sound, fun value isValue => ?_⟩
    obtain ⟨fs, storage, rfl, -, returned⟩ := storageJob_eq_some ends
    obtain ⟨before, world, isBefore, rfl, returns⟩ := returned value isValue
    exact ⟨world.storage, rfl, stays.root _ rfl, possible_executeAppendJob returns⟩
  · rename_i streamId limits reply reading
    obtain ⟨_, rfl, -, stays, samePhase⟩ :=
      serves.runAs (keeps_bind keeps_getStorage fun _ => keeps_onDisk _) ran
    exact ⟨stays, by rw [samePhase, reading]; rfl, nofun⟩
  · rename_i entries releasing
    obtain ⟨_, rfl, -, stays, samePhase⟩ := serves.runAs (keeps_releaseGroup _) ran
    exact ⟨stays, by rw [samePhase, releasing]; rfl, nofun⟩
  · rename_i reply reclaiming
    obtain ⟨_, rfl, -, stays, samePhase⟩ := serves.runAs (keeps_reclaim _) ran
    exact ⟨stays, by rw [samePhase, reclaiming]; rfl, nofun⟩
  · rename_i maintaining
    obtain ⟨_, rfl, -, stays, samePhase⟩ := serves.runAs (keeps_reclaim _) ran
    exact ⟨stays, by rw [samePhase, maintaining]; rfl, nofun⟩
  · rename_i rollingOver
    obtain ⟨_, rfl, -, stays, samePhase⟩ := serves.runAs (keeps_sealExpired _) ran
    exact ⟨stays, by rw [samePhase, rollingOver]; rfl, nofun⟩
  · cases ran

/-- **The end of a job of this root**: the first of its commands are answered as the result says. -/
theorem Ran.concluded {result : JobResult} (ran : reactor.Ran rootId result) (clock : Clock) :
    ∃ replies deferred, reactor.Concluded (reactor.finishJob clock result) replies deferred ∧
      result.Replies reactor.limits reactor.storage (replies.map Prod.snd) ∧
      ∀ entry ∈ replies, entry.2.Answers rootId entry.1 := by
  have inHand := ran.inHand
  cases result with
  | append entries result =>
    obtain ⟨nonempty, possible⟩ := ran.append entries result rfl
    obtain ⟨verdict, replies, isVerdict, covers, isReplies⟩ := appendVerdict_covers nonempty possible
    refine ⟨verdict.answered.map (Prod.map AppendEntry.command id),
      verdict.deferred.map AppendEntry.command, ?_, ?_, ?_⟩
    · have touched := (((@touched_poisonIf reactor .append (appendFailure entries.length result)).trans
        touched_publishStorage).trans (touched_observeAgeTimer clock)).trans
          (touched_poisonIf .append verdict.failure)
      simp only [finishJob, Reactor.finishAppends, isVerdict, requeueAppends_eq]
      refine concluded_answer touched ?_ (by rw [covers.counted, List.length_map])
      rw [inHand, JobResult.commands]
      conv_lhs => rw [covers.all]
      simp [Function.comp_def]
    · simpa [JobResult.Replies, Function.comp_def, covers.replies] using isReplies
    · intro entry member
      obtain ⟨original, isOriginal, rfl⟩ := List.mem_map.mp member
      exact covers.answers original isOriginal
  | read streamId limits reply result =>
    exact ⟨[(_, .read result)], [], concluded_answer (touched_poisonOnError _ _) inHand rfl, rfl,
      List.forall_mem_singleton.mpr rfl⟩
  | release entries result =>
    refine ⟨replyReleases entries result, [], concluded_answer
      ((touched_poisonOnError _ _).trans touched_publishStorage) ?_ ?_,
      replyReleases_replies entries result, replyReleases_answers entries result⟩
    · rw [replyReleases_fst, List.append_nil]
      exact inHand
    · rw [← List.length_map ReleaseEntry.command, ← replyReleases_fst entries result, List.length_map]
  | reclaim reply result =>
    have concluded : reactor.Concluded _ [(⟨reply, .reclaim⟩, .reclaim result)] [] :=
      concluded_answer ((touched_poisonOnError .reclaim result).trans touched_publishStorage) inHand rfl
    exact ⟨_, [], concluded.touched ((touched_observeAgeTimer clock).phase .top), rfl,
      List.forall_mem_singleton.mpr rfl⟩
  | maintenance operation result =>
    obtain ⟨shared, timer, same⟩ := ((@touched_poisonOnError reactor _ operation result).trans
      touched_publishStorage).trans (touched_observeAgeTimer clock)
    refine ⟨[], [], ⟨inHand, shared, timer, ?_⟩, rfl, nofun⟩
    simp only [finishJob, Reactor.finishMaintenance, same]
    simp

/-! ### Runs -/

/-- **The end of a job** keeps the invariant and concludes the job. -/
theorem Serves.endJob (serves : reactor.Serves rootId) {clocks : JobClocks} {clock : Clock}
    (ended : reactor.endJob jobEnd clocks clock = some after) :
    after.Serves rootId ∧ ∃ result left replies deferred,
      reactor.runJob jobEnd clocks = some (result, left) ∧ left.Concluded after replies deferred ∧
      result.Replies left.limits left.storage (replies.map Prod.snd) := by
  rw [endJob_eq] at ended
  obtain ⟨⟨result, left⟩, ran, rfl⟩ := Option.map_eq_some_iff.mp ended
  obtain ⟨stays, isRan⟩ := serves.runJob ran
  obtain ⟨replies, deferred, concluded, isReplies, answers⟩ := isRan.concluded clock
  exact ⟨stays.conclude concluded answers, result, left, replies, deferred, ran, concluded, isReplies⟩

/-- **Every step of the reactor or of a client keeps the invariant.** -/
theorem act_serves (serves : reactor.Serves rootId) {action : Action}
    (acts : reactor.act action = some after) : after.Serves rootId := by
  cases action with
  | admits request =>
    obtain ⟨going, acts⟩ := Option.ite_none_right_eq_some.mp acts
    cases acts
    simp only [Bool.and_eq_true, Bool.not_eq_true'] at going
    exact serves.markAdmitted going.1.2 going.2
  | calls =>
    obtain ⟨-, acts⟩ := Option.ite_none_right_eq_some.mp acts
    cases acts
    exact ⟨serves.fifo, serves.numbered, serves.admissible, serves.replies, serves.groups,
      serves.ordered, serves.depth, serves.sound, serves.root, serves.valid⟩
  | caller index =>
    obtain ⟨-, acts⟩ := Option.ite_none_right_eq_some.mp acts
    obtain ⟨caller, -, acts⟩ := Option.bind_eq_some_iff.mp acts
    obtain ⟨⟨shared, next⟩, -, rfl⟩ := Option.map_eq_some_iff.mp acts
    exact ⟨serves.fifo, serves.numbered, serves.admissible, serves.replies, serves.groups,
      serves.ordered, serves.depth, serves.sound, serves.root, serves.valid⟩
  | dropsHandles =>
    cases acts
    exact ⟨serves.fifo, serves.numbered, serves.admissible, serves.replies, serves.groups,
      serves.ordered, nofun, serves.sound, serves.root, serves.valid⟩
  | loops =>
    simp only [Reactor.act] at acts
    split at acts <;> cases acts
    exact serves.loop (by assumption)
  | seeks =>
    simp only [Reactor.act] at acts
    split at acts <;> cases acts
    exact serves.seek (by assumption)
  | wakes wake =>
    simp only [Reactor.act] at acts
    split at acts
    · exact serves.wake (by assumption) acts
    · cases acts
  | dispatches =>
    simp only [Reactor.act] at acts
    split at acts <;> cases acts
    exact serves.dispatch (by assumption)
  | gathers =>
    simp only [Reactor.act] at acts
    split at acts <;> cases acts
    · exact serves.gatherAppend (by assumption)
    · exact serves.gatherRelease (by assumption)
  | endsJob jobEnd clocks clock => exact (serves.endJob acts).1

end

theorem Serves.isOver (serves : reactor.Serves rootId) (ended : reactor.isOver = true) :
    reactor.answered.map Prod.fst = reactor.admitted := by
  have fifo := serves.fifo
  have sound := serves.sound
  unfold Reactor.isOver at ended
  split at ended
  · rename_i isEnded
    rw [isEnded] at fifo sound
    rw [fifo, sound.1, sound.2]
    simp [Phase.inHand]
  · rename_i lost unwound
    rw [unwound] at fifo sound
    rw [fifo, sound.1, sound.2.1, sound.2.2]
    simp [Phase.inHand]
  · cases ended

end Reactor

/-- The bounds of a configuration that an open accepts fit together. -/
theorem Config.limits_valid {config : Config} (valid : config.validate = .ok ()) :
    config.limits.Valid := by
  simp only [Config.validate, Result.bind_eq_ok, Result.ensure_eq_ok, Result.orError_eq_ok,
    Option.bind_eq_bind, Option.bind_eq_some_iff, maximalReleaseFrame, checkedAdd_eq_some, checkedMul_eq_some,
    toWord_eq_some, decide_eq_true_eq] at valid
  obtain ⟨_, -, _, -, _, -, _, units, _, -, _, -, segment, ⟨_, ⟨rfl, -⟩, rfl, -⟩, _, room, _,
    ⟨rfl, -⟩, _, ⟨_, ⟨rfl, -⟩, _, ⟨rfl, -⟩, rfl, -⟩, _, commit, -⟩ := valid
  have frame : manifestFrameHeaderLen = 48 := rfl
  refine ⟨Nat.one_le_iff_ne_zero.mpr units, ?_, ?_⟩
  · show config.maxEpochBytes ≤
      min config.maxCommitBytes (config.segmentBytes - segmentHeaderLen - segmentFooterLen)
    omega
  · have bound : 72 + 16 * config.maxReleaseRecords ≤
        min config.maxCommitBytes (72 + config.maxReleaseRecords * 16) := by omega
    show _ ≤ Reactor.maxReleaseGroupBytes config.limits
    unfold Reactor.maxReleaseGroupBytes
    split
    · exact bound
    · exact bound.trans (Nat.min_le_left _ _)

theorem Reactor.opened_serves {config : Config} (valid : config.validate = .ok ())
    (storage : Storage) (fs : Fs) (ageTimer : Bool) :
    (opened config storage fs ageTimer).Serves storage.rootId where
  fifo := rfl
  numbered := rfl
  admissible := nofun
  replies := nofun
  groups := nofun
  ordered := .nil
  depth := fun _ => rfl
  sound := trivial
  root := by
    rintro _ ⟨⟩
    rfl
  valid := Config.limits_valid valid

namespace ReactorSample

def config : Config := { Config.sample with segmentBytes := 480 }

/-- One append, and then three as a group, for two of which the active segment has room; the third is
put back and appended alone. -/
def schedule : List Reactor.Action :=
  let append := .admits (.append 1 [⟨[], []⟩] 128)
  let ends := .endsJob (.ran []) .sample (.millis 5)
  [append, .loops, .seeks, .wakes .command, .dispatches, .gathers, ends,
    append, append, append, .loops, .seeks, .wakes .command, .dispatches, .gathers, .gathers, .gathers,
    ends, .loops, .seeks, .dispatches, .gathers, ends, .dropsHandles, .loops, .seeks, .wakes .command]

end ReactorSample

end Camus
