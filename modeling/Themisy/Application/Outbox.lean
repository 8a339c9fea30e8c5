import Themisy.Application.TenantIsolation

/-!
# Publishing workflow requests

This file embeds `RecoverPendingWorkflows` of `outbox.go`. Together with `start`
it is the second publisher of the requests for workflows in the outbox.

Seen alone, a publisher marks a request as published only after the workflow of
the request's run was started: `start` for the run which it has created, and the
recovery for the run which it has found under the identifier in the request.
-/

namespace Themisy.Application

open Domain Store Interaction

def workflowRequestedEvent : String :=
  "release.workflow.requested"

/-- The loop over the pending requests; it counts those it has published. -/
def publishRequests : List OutboxEvent → ℕ → Prog requests (ℕ × Option ControlError)
  | [], published => return (published, none)
  | event :: rest, published => do
      let loaded : Except StoreError ReleaseRun ←
        Prog.perform (S := requests) (Op.getRun event.aggregateID)
      match loaded with
      | .error error =>
        return (published, some (.wrapped ("load outbox run " ++ event.aggregateID)
          (.store error)))
      | .ok run => do
          let started : Except String Unit ← Prog.perform (S := requests) (Op.startRelease run)
          match started with
          | .error message =>
            return (published, some (.wrapped ("publish workflow request " ++ event.id)
              (.workflows message)))
          | .ok () => do
              let publishedAt : Time ← Prog.perform (S := requests) Op.now
              let marked : Except StoreError Unit ←
                Prog.perform (S := requests) (Op.markOutboxPublished event.id publishedAt)
              match marked with
              | .error error =>
                return (published, some (.wrapped
                  ("mark workflow request " ++ event.id ++ " published") (.store error)))
              | .ok () => publishRequests rest (published + 1)

def recoverPendingWorkflows (limit : ℤ) : Prog requests (ℕ × Option ControlError) := do
  let pending : Except StoreError (List OutboxEvent) ← Prog.perform (S := requests)
    (Op.pendingOutboxByType workflowRequestedEvent limit)
  match pending with
  | .error error => return (0, some (.store error))
  | .ok events => publishRequests events 0

/-- A call of one of the two publishers. -/
inductive Publisher where
  | start (releases : Releases) (request : ReleaseRequest) (plan : ReleasePlan)
  | recover (limit : ℤ)

def Publisher.program :
    Publisher → Prog requests (Except Failure Response ⊕ ℕ × Option ControlError)
  | start releases request plan => do return .inl (← (releases.start request plan).run)
  | recover limit => do return .inr (← recoverPendingWorkflows limit)

def reportsCreated : Except Failure Response → Bool
  | .ok (.started _ created) => created
  | .error ⟨_, some (.started _ created)⟩ => created
  | _ => false

def Op.isStart : Op → Bool
  | startRelease _ => true
  | _ => false

def issued : Event requests → List String
  | ⟨.newID kind, id⟩ => if kind = "workflow" then [id] else []
  | _ => []

/-- The requests with which a run is to be created: their identifiers and those of their runs. -/
def filed : Event requests → List (String × String)
  | ⟨.createRunAtomic _ _ outbox, _⟩ => outbox.map fun event => (event.id, event.aggregateID)
  | _ => []

def listed : Event requests → List (String × String)
  | ⟨.pendingOutboxByType eventType _, .ok events⟩ =>
    if eventType = workflowRequestedEvent then
      events.map fun event => (event.id, event.aggregateID)
    else []
  | _ => []

def shown : Event requests → List (String × ReleaseRun)
  | ⟨.createRunAtomic run _ _, .ok (found, true)⟩ => [(run.id, found)]
  | ⟨.getRun id, .ok run⟩ => [(id, run)]
  | _ => []

def started : Event requests → List ReleaseRun
  | ⟨.startRelease run, .ok ()⟩ => [run]
  | _ => []

section Knows

variable {Fact : Type}

/-- Some event of the history tells the fact. -/
def Knows (read : Event requests → List Fact) (history : History) (fact : Fact) : Prop :=
  ∃ event ∈ history, fact ∈ read event

variable {read : Event requests → List Fact} {history : History} {fact : Fact}

variable {event : Event requests}

theorem knows_append :
    Knows read (history ++ [event]) fact ↔ Knows read history fact ∨ fact ∈ read event := by
  simp [Knows, or_and_right, exists_or]

theorem Knows.mono {later : History} (knows : Knows read history fact)
    (grows : history ⊆ later) : Knows read later fact := by
  rcases knows with ⟨event, member, told⟩
  exact ⟨event, grows member, told⟩

theorem Knows.last (told : fact ∈ read event) : Knows read (history ++ [event]) fact :=
  knows_append.mpr (Or.inr told)

end Knows

/-- Why a publisher may change the store. -/
def Warranted (history : History) : Op → Prop
  | .createRunAtomic run _ outbox =>
    (∀ request, ¬Knows filed history request) ∧
      ∃ id now, Knows issued history id ∧ outbox = [startOutbox id run now]
  | .markOutboxPublished id _ => ∃ run runID, Knows started history run ∧
      Knows shown history (runID, run) ∧
      (Knows issued history id ∧ Knows filed history (id, runID) ∨
        Knows listed history (id, runID))
  | _ => True

def Unstarted (history : History) : Prop :=
  ∀ event ∈ history, event.1.isStart = false

/-- A publisher which reports no created run has started no workflow. -/
def Reported (history : History) :
    Except Failure Response ⊕ ℕ × Option ControlError → Prop
  | .inl outcome => reportsCreated outcome = false → Unstarted history
  | .inr _ => True

theorem publishRequests_warranted (events : List OutboxEvent) (published : ℕ) (history : History)
    (pending : ∀ event ∈ events, Knows listed history (event.id, event.aggregateID)) :
    Always (S := requests) (fun _ _ => True) Warranted (fun _ _ => True) history
      (publishRequests events published) := by
  induction events generalizing published history with
  | nil => exact Always.pure trivial
  | cons event rest ih =>
    unfold publishRequests
    apply Always.request trivial
    intro loaded _
    rcases loaded with error | run
    · exact Always.pure trivial
    · apply Always.request trivial
      intro answer _
      rcases answer with message | ⟨⟩
      · exact Always.pure trivial
      · apply Always.request trivial
        intro publishedAt _
        have grows : ∀ later, history ⊆ history ++ later := List.subset_append_left history
        apply Always.request
        · refine ⟨run, event.aggregateID, ?_, ?_, Or.inr ?_⟩
          · exact ⟨⟨.startRelease run, .ok ()⟩, by simp, by simp [started]⟩
          · exact ⟨⟨.getRun event.aggregateID, .ok run⟩, by simp, by simp [shown]⟩
          · simp only [List.append_assoc]
            exact (pending event List.mem_cons_self).mono (grows _)
        · intro marked _
          rcases marked with error | ⟨⟩
          · exact Always.pure trivial
          · apply ih
            intro other member
            simp only [List.append_assoc]
            exact (pending other (List.mem_cons_of_mem _ member)).mono (grows _)

theorem recoverPendingWorkflows_warranted (limit : ℤ) :
    Always (S := requests) (fun _ _ => True) Warranted (fun _ _ => True) []
      (recoverPendingWorkflows limit) := by
  apply Always.request trivial
  intro pending _
  rcases pending with error | events
  · exact Always.pure trivial
  · apply publishRequests_warranted
    intro event member
    apply Knows.last
    simp only [listed, if_true, List.mem_map]
    exact ⟨event, member, rfl⟩

section Start

variable {β : Type} {history : History}

/-- What is shown of the statements of `start`. -/
abbrev Starts (history : History) (program : Call Response) : Prop :=
  Settles (S := requests) (fun _ _ => True) Warranted
    (fun failure later => Reported later (.inl (.error failure)))
    (fun response later => Reported later (.inl (.ok response))) history program

theorem returning_starts {result : Except ControlError β} {follow : β → Call Response}
    (unstarted : Unstarted history)
    (continues : ∀ value, result = .ok value → Starts history (follow value)) :
    Starts history (returning result >>= follow) := by
  cases result with
  | error error => exact Settles.throw fun _ => unstarted
  | ok value => exact continues value rfl

theorem startWorkflow_starts {run : ReleaseRun} {runID outboxID : String}
    (stored : Knows shown history (runID, run)) (issue : Knows issued history outboxID)
    (request : Knows filed history (outboxID, runID)) :
    Starts history (Releases.startWorkflow run outboxID) := by
  have grows : ∀ later, history ⊆ history ++ later := List.subset_append_left history
  apply Settles.ask trivial
  intro answer _
  rcases answer with message | ⟨⟩
  · exact Settles.throw fun unreported => by cases unreported
  · apply Settles.ask trivial
    intro publishedAt _
    apply Settles.ask
    · refine ⟨run, runID, ⟨⟨.startRelease run, .ok ()⟩, by simp, by simp [started]⟩, ?_⟩
      simp only [List.append_assoc]
      exact ⟨stored.mono (grows _), Or.inl ⟨issue.mono (grows _), request.mono (grows _)⟩⟩
    · intro marked _
      rcases marked with error | ⟨⟩
      · exact Settles.throw fun unreported => by cases unreported
      · exact Settles.pure fun unreported => by cases unreported

theorem start_starts (releases : Releases) (request : ReleaseRequest) (plan : ReleasePlan) :
    Starts [] (releases.start request plan) := by
  apply Settles.ask trivial
  intro validatedAt _
  apply returning_starts
  · simp [Unstarted, Op.isStart]
  intro _ _
  apply Settles.ask trivial
  intro now _
  apply Settles.ask trivial
  intro runID _
  apply Settles.ask trivial
  intro auditID _
  apply Settles.ask trivial
  intro outboxID _
  have issue : ∀ earlier : History,
      Knows issued (earlier ++ [⟨Op.newID "workflow", outboxID⟩]) outboxID := by
    intro earlier
    apply Knows.last
    simp [issued]
  apply Settles.ask
  · refine ⟨?_, outboxID, now, issue _, rfl⟩
    intro request
    simp [Knows, filed]
  · intro answer _
    apply returning_starts
    · simp [Unstarted, Op.isStart]
    rintro ⟨existing, created⟩ accepted
    rcases answer with error | ⟨found, wasCreated⟩
    · cases accepted
    · cases accepted
      cases created with
      | false => exact Settles.pure fun _ => by simp [Unstarted, Op.isStart]
      | true =>
        apply startWorkflow_starts
        · exact Knows.last (List.mem_singleton_self _)
        · exact (issue _).mono (List.subset_append_left _ _)
        · exact Knows.last (List.mem_singleton_self _)

end Start

/-- Whatever its environment answers, a publisher changes the store only as warranted. -/
theorem Publisher.warranted (publisher : Publisher) :
    Always (S := requests) (fun _ _ => True) Warranted (fun value later => Reported later value) []
      publisher.program := by
  cases publisher with
  | start releases request plan =>
    apply Always.bind
    apply Always.mono _ (start_starts releases request plan)
    rintro (failure | response) later reported
    · exact Always.pure reported
    · exact Always.pure reported
  | recover limit =>
    apply Always.bind
    exact (recoverPendingWorkflows_warranted limit).mono fun _ _ _ => Always.pure trivial

end Themisy.Application
