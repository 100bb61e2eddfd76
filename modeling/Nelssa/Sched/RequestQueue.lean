import Mathlib.Order.Lattice
import Nelssa.Foundation.BinaryHeap
import Nelssa.Core.BlockHashMap

/-!
# Requests and their queues

The scheduler's view of a request, and the two kinds of queues for requests that do not run: a deque
under first-come-first-served scheduling and a heap under priority scheduling. Requests are named by
their ids; what a queue compares is looked up in the table of all requests.
-/

namespace Nelssa.Sched

open Nelssa.Core Foundation BinaryHeap

inductive RequestStatus where
  | waiting
  | waitingForStructuredOutputGrammar
  | waitingForRemoteKvs
  | waitingForStreamingReq
  | running
  | preempted
  | finished
  deriving DecidableEq, Repr

/-- The fields of a request that the scheduler reads. All kinds of a finished status are one status
here. A float time stamp is a number, since time stamps are only compared. -/
structure Request where
  status : RequestStatus := .waiting
  priority : ℤ := 0
  arrivalTime : ℕ := 0
  numPromptTokens : ℕ
  numTokens : ℕ
  numComputedTokens : ℕ := 0
  numOutputPlaceholders : ℕ := 0
  maxTokens : ℕ
  specTokenIds : List ℤ := []
  blockHashes : List BlockHash := []
  loraIntId : Option ℕ := none
  encoderEmbeds : List ℕ := []
  nelssaLongMask : Bool := false
  headSize : Option ℕ := none
  tailSize : Option ℕ := none
  numPreemptions : ℕ := 0
  isPrefillChunk : Bool := false

namespace Request

def numTokensWithSpec (req : Request) : ℕ := req.numTokens + req.specTokenIds.length

def hasEncoderInputs (req : Request) : Bool := !req.encoderEmbeds.isEmpty

end Request

inductive SchedulingPolicy where
  | fcfs
  | priority
  deriving DecidableEq, Repr

/-- The order of `Request.__lt__`. -/
def requestLt {ρ : Type*} [LinearOrder ρ] (requests : ρ → Request) (first second : ρ) : Bool :=
  let left := requests first
  let right := requests second
  if left.priority ≠ right.priority then left.priority < right.priority
  else if left.arrivalTime ≠ right.arrivalTime then left.arrivalTime < right.arrivalTime
  else first < second

inductive RequestQueue (ρ : Type*) where
  | fcfs (deque : List ρ)
  | priority (heap : Array ρ)

namespace RequestQueue

variable {ρ : Type*}

def create : SchedulingPolicy → RequestQueue ρ
  | .fcfs => .fcfs []
  | .priority => .priority #[]

/-- The members of a queue in the order in which they are stored. -/
def members : RequestQueue ρ → List ρ
  | .fcfs deque => deque
  | .priority heap => heap.toList

def isEmpty (queue : RequestQueue ρ) : Bool := queue.members.isEmpty

/-- `none` is the index error for an empty queue. -/
def peekRequest (queue : RequestQueue ρ) : Option ρ := queue.members.head?

variable (lt : ρ → ρ → Bool)

def addRequest : RequestQueue ρ → ρ → RequestQueue ρ
  | .fcfs deque, req => .fcfs (deque ++ [req])
  | .priority heap, req => .priority (push lt heap req)

def prependRequest : RequestQueue ρ → ρ → RequestQueue ρ
  | .fcfs deque, req => .fcfs (req :: deque)
  | .priority heap, req => .priority (push lt heap req)

/-- `none` is the index error for an empty queue. -/
def popRequest : RequestQueue ρ → Option (ρ × RequestQueue ρ)
  | .fcfs [] => none
  | .fcfs (req :: rest) => some (req, .fcfs rest)
  | .priority heap => (pop lt heap).map fun popped ↦ (popped.1, .priority popped.2)

/-- The members of a queue in the order of the policy. -/
def iter : RequestQueue ρ → List ρ
  | .fcfs deque => deque
  | .priority heap => popAll lt heap.size heap

/-- Put all requests of another queue in front, each before the ones put there earlier. -/
def prependRequests (queue requests : RequestQueue ρ) : RequestQueue ρ :=
  (requests.iter lt).foldl (fun current req ↦ current.prependRequest lt req) queue

/-- Take requests out of a queue; a heap is built anew from the others. -/
def removeRequests [DecidableEq ρ] : RequestQueue ρ → List ρ → RequestQueue ρ
  | .fcfs deque, requests => .fcfs (deque.filter (· ∉ requests))
  | .priority heap, requests =>
    .priority (heapify lt (heap.toList.filter (· ∉ requests)).toArray)

/-! ## The members after an operation -/

theorem addRequest_perm (queue : RequestQueue ρ) (req : ρ) :
    (queue.addRequest lt req).members.Perm (req :: queue.members) := by
  cases queue with
  | fcfs deque => exact List.perm_append_singleton req deque
  | priority heap => exact push_perm lt heap req

theorem prependRequest_perm (queue : RequestQueue ρ) (req : ρ) :
    (queue.prependRequest lt req).members.Perm (req :: queue.members) := by
  cases queue with
  | fcfs deque => exact .refl _
  | priority heap => exact push_perm lt heap req

theorem popRequest_perm {queue rest : RequestQueue ρ} {req : ρ}
    (hpop : queue.popRequest lt = some (req, rest)) : queue.members.Perm (req :: rest.members) := by
  cases queue with
  | fcfs deque =>
    cases deque with
    | nil => cases hpop
    | cons first others =>
      cases hpop
      exact .refl _
  | priority _ =>
    obtain ⟨_, hpopped, hsame⟩ := Option.map_eq_some_iff.1 hpop
    cases hsame
    exact pop_perm lt hpopped

theorem iter_perm (queue : RequestQueue ρ) : (queue.iter lt).Perm queue.members := by
  cases queue with
  | fcfs deque => exact .refl _
  | priority _ => exact popAll_perm lt (le_refl _)

theorem prependRequests_perm (queue requests : RequestQueue ρ) :
    (queue.prependRequests lt requests).members.Perm (requests.members ++ queue.members) := by
  have hfold (items : List ρ) (start : RequestQueue ρ) :
      (items.foldl (fun current req ↦ current.prependRequest lt req) start).members.Perm
        (items ++ start.members) := by
    induction items generalizing start with
    | nil => exact .refl _
    | cons req rest ih =>
      refine (ih _).trans ?_
      exact ((prependRequest_perm lt start req).append_left rest).trans List.perm_middle
  exact (hfold _ _).trans ((iter_perm lt requests).append_right _)

theorem removeRequests_perm [DecidableEq ρ] (queue : RequestQueue ρ) (requests : List ρ) :
    (queue.removeRequests lt requests).members.Perm (queue.members.filter (· ∉ requests)) := by
  cases queue with
  | fcfs deque => exact .refl _
  | priority _ => exact heapify_perm lt _

end RequestQueue

end Nelssa.Sched
