import Themisy.Runner.Authorization

/-!
# What `Reconcile` asks for

`Reconcile` goes through the records which the journal lists as pending. It asks
for no reservation and for no write of an adapter, and it completes a record only
after its reconciler has found the outcome of that record.

A missing credential, an error of the reconciler and an outcome which is not found
do not stop it: it stops early only when the journal does not complete a record.
-/

namespace Themisy.Runner

open Domain Protocol Store Interaction

def Listed (history : History) (record : RunnerActionRecord) : Prop :=
  ∃ tenantID runnerGroup limit records,
    ⟨Op.pendingRunnerActions tenantID runnerGroup limit, .ok records⟩ ∈ history ∧
      record ∈ records

/-- Only a record which was listed and found is completed. -/
def Resolves (history : History) : Op → Prop
  | .completeRunnerAction record expected _ => ∃ current credential found,
      Listed history current ∧
      ⟨Op.reconcileAdapter (recordRequest current) credential, .ok (found, true)⟩ ∈ history ∧
      expected = current.stateVersion ∧ ∃ result updatedAt,
        record = { current with status := some .succeeded, result, updatedAt }
  | .reserveRunnerAction _ _ | .executeAdapter _ _ => False
  | _ => True

variable {history later : History} {record : RunnerActionRecord} {op : Op}

theorem Listed.mono (listed : Listed history record) (grows : history ⊆ later) :
    Listed later record := by
  rcases listed with ⟨tenantID, runnerGroup, limit, records, member, isListed⟩
  exact ⟨tenantID, runnerGroup, limit, records, grows member, isListed⟩

theorem Resolves.isExecute (resolves : Resolves history op) : op.isExecute = false := by
  cases op <;> first | rfl | cases resolves

theorem Resolves.justified {reserves : RunnerActionRecord → Prop} (resolves : Resolves history op)
    (honest : Honestly history) : Justified reserves history op := by
  cases op with
  | completeRunnerAction record expected audit =>
    rcases resolves with ⟨current, -, -, ⟨tenantID, runnerGroup, limit, records, member, listed⟩,
      -, rfl, result, updatedAt, rfl⟩
    refine ⟨current, ⟨_, member, listed⟩, rfl, ?_, rfl, rfl⟩
    rcases honest _ member current listed with reserved | unknown
    · exact Or.inl ⟨reserved, rfl⟩
    · exact Or.inr (Or.inr ⟨unknown, rfl⟩)
  | reserveRunnerAction => cases resolves
  | _ => trivial

def recordCredential (reconciler : Adapter) (record : RunnerActionRecord) : CredentialRequest where
  provider := reconciler.provider
  tenantID := record.tenantID
  service := record.target.service
  environment := record.target.environment
  purpose := purposeOf record.action

/-- What a pass asks for one record before it goes on to the next one. -/
inductive Handled (reconciler : Adapter) (record : RunnerActionRecord) : History → Prop
  | noCredential (error : GoError) :
      Handled reconciler record
        [⟨.acquireCredential (recordCredential reconciler record), .error error⟩]
  | failed (credential : Credential) (error : GoError) :
      Handled reconciler record
        [⟨.acquireCredential (recordCredential reconciler record), .ok credential⟩,
          ⟨.reconcileAdapter (recordRequest record) credential, .error error⟩]
  | notFound (credential : Credential) (outcome : AdapterResult) :
      Handled reconciler record
        [⟨.acquireCredential (recordCredential reconciler record), .ok credential⟩,
          ⟨.reconcileAdapter (recordRequest record) credential, .ok (outcome, false)⟩]
  | completed (credential : Credential) (found : AdapterResult) (now : Time)
      (updated : RunnerActionRecord) (audit : AuditEvent) :
      Handled reconciler record
        [⟨.acquireCredential (recordCredential reconciler record), .ok credential⟩,
          ⟨.reconcileAdapter (recordRequest record) credential, .ok (found, true)⟩,
          ⟨.now, now⟩, ⟨.completeRunnerAction updated record.stateVersion audit, .ok ()⟩]

/-- The journal has not listed the records or not completed one. -/
def JournalFailed : Event requests → Prop
  | ⟨.pendingRunnerActions _ _ _, .error _⟩ | ⟨.completeRunnerAction _ _ _, .error _⟩ => True
  | _ => False

/-- How a pass over records ends: it has handled all of them, or it had to stop. -/
def Passed (runner : Runner) (reconciler : Adapter) (records : List RunnerActionRecord)
    (history : History) : Option GoError → History → Prop
  | none, later => ∃ parts, later = history ++ parts.flatten ∧
      List.Forall₂ (Handled reconciler) records parts
  | some _, later => runner.credentials = false ∨ ∃ event ∈ later, JournalFailed event

theorem Passed.cons {runner : Runner} {reconciler : Adapter} {records : List RunnerActionRecord}
    {part : History} {outcome : Option GoError} (handled : Handled reconciler record part)
    (passed : Passed runner reconciler records (history ++ part) outcome later) :
    Passed runner reconciler (record :: records) history outcome later := by
  cases outcome with
  | none =>
    obtain ⟨parts, rfl, all⟩ := passed
    exact ⟨part :: parts, by simp, .cons handled all⟩
  | some error => exact passed

section Reconcile

variable {machine : Machine requests} {runner : Runner} {world : machine.World}
  {history : History}

theorem reconcileRecords_resolves {reconciler : Adapter} (records : List RunnerActionRecord)
    (listed : ∀ record ∈ records, Listed history record) :
    Ensures machine.traced (fun world op => Resolves world.2 op)
      (fun outcome world => Passed runner reconciler records history outcome world.2)
      (world, history) (runner.reconcileRecords reconciler records) := by
  induction records generalizing world history with
  | nil => exact Ensures.pure ⟨[], by simp, .nil⟩
  | cons record rest ih =>
    have later : ∀ (world : machine.World) part, Handled reconciler record part →
        Ensures machine.traced (fun world op => Resolves world.2 op)
          (fun outcome world => Passed runner reconciler (record :: rest) history outcome world.2)
          (world, history ++ part) (runner.reconcileRecords reconciler rest) := by
      intro world part handled
      refine (ih ?_).mono (fun _ _ resolves => resolves) fun _ _ passed => passed.cons handled
      intro other member
      exact (listed other (List.mem_cons_of_mem _ member)).mono (List.subset_append_left _ _)
    unfold reconcileRecords
    split
    · next missing => exact Ensures.pure (Or.inl missing)
    · apply Ensures.requestTraced trivial
      intro acquired _ _
      rcases acquired with error | credential
      · exact later _ _ (.noCredential error)
      · apply Ensures.requestTraced trivial
        intro outcome _ _
        rw [List.append_assoc]
        rcases outcome with error | ⟨found, _ | _⟩
        · exact later _ _ (.failed credential error)
        · exact later _ _ (.notFound credential found)
        · apply Ensures.requestTraced trivial
          intro now _ _
          rw [List.append_assoc]
          apply Ensures.requestTraced
          · exact ⟨record, credential, found,
              (listed record List.mem_cons_self).mono (List.subset_append_left _ _), by simp,
              rfl, _, _, rfl⟩
          · intro completed _ _
            rcases completed with error | ⟨⟩
            · exact Ensures.pure (Or.inr ⟨_, List.mem_concat_self, trivial⟩)
            · rw [List.append_assoc]
              exact later _ _ (.completed credential found now _ _)

/-- The components without which `Reconcile` does not go through the records. -/
def reconciles (runner : Runner) : Prop :=
  runner.journal = true ∧ runner.credentials = true ∧ runner.tenantID ≠ "" ∧
    runner.runnerGroup ≠ ""

def Reconciled (runner : Runner) (reconciler : Adapter) (limit : ℤ) (history : History) :
    Option GoError → History → Prop
  | none, later => ∃ records parts,
      later = history ++ ⟨.pendingRunnerActions runner.tenantID runner.runnerGroup limit,
        .ok records⟩ :: parts.flatten ∧ List.Forall₂ (Handled reconciler) records parts
  | some _, later => ¬runner.reconciles ∨ ∃ event ∈ later, JournalFailed event

theorem reconcile_resolves {reconciler : Option Adapter} {limit : ℤ} :
    Ensures machine.traced (fun world op => Resolves world.2 op)
      (fun outcome world => ∀ present, reconciler = some present →
        Reconciled runner present limit history outcome world.2)
      (world, history) (runner.reconcile reconciler limit) := by
  unfold reconcile
  split
  · next present configured =>
    split
    · next unknown =>
      apply Ensures.pure
      rintro _ -
      refine Or.inl fun complete => ?_
      exact unknown.elim complete.2.2.1 complete.2.2.2
    · apply Ensures.requestTraced trivial
      intro pending _ _
      rcases pending with error | records
      · exact Ensures.pure fun _ _ => Or.inr ⟨_, List.mem_concat_self, trivial⟩
      · refine (reconcileRecords_resolves records fun record member => ?_).mono
          (fun _ _ resolves => resolves) ?_
        · exact ⟨_, _, _, records, List.mem_append_right _ (List.mem_singleton_self _), member⟩
        · rintro (_ | error) world passed _ same
          · cases same
            obtain ⟨parts, split, all⟩ := passed
            exact ⟨records, parts, by rw [split, List.append_assoc]; rfl, all⟩
          · exact passed.imp_left fun missing complete => absurd complete.2.1 (by simp [missing])
  · next missing =>
    apply Ensures.pure
    rintro present rfl
    exact Or.inl fun complete => missing present complete.1 rfl

end Reconcile

end Themisy.Runner
