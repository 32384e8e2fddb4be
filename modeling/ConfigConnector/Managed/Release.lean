import ConfigConnector.Direct.Contract
import ConfigConnector.Terraform.Contract

/- One controller that reconciles an object again and again, while users and other
controllers do what they like to the object between its calls. When the controller
takes its finalizer off, it has seen a reason for it in that very reconcile. -/
namespace ConfigConnector.Managed

open Interact K8s Lifecycle

variable {σ τ Q : Type} {A : Q → Type} [DecidableEq σ] [DecidableEq τ]

/-- The controller alone with the API server, and with whatever changes the object. -/
def alone (program : Prog (calls σ τ A) Result) : Machine (calls σ τ A) where
  State := Server σ τ
  Party := Unit
  program := fun _ => do
    let _ ← program
    return ()
  answers := fun _ s => s.answers
  drift := Advances

instance (program : Prog (calls σ τ A) Result) : DecidableEq (alone program).Party :=
  inferInstanceAs (DecidableEq Unit)

def HasController (s : Server σ τ) : Prop :=
  ∃ o, s.stored = some o ∧ controllerFinalizerName ∈ o.metadata.finalizers

/-- In every run, whatever is stored at first: a call of the controller that takes its
finalizer off the stored object is made after a trace that allows it. -/
def DropsOnly (program : Prog (calls σ τ A) Result)
    (drops : Trace (calls σ τ A) → Resource σ τ → Prop) : Prop :=
  ∀ w : (alone program).World, (alone program).Reach (fun _ => True) (fun _ _ => True) w →
    ∀ (seen : Trace (calls σ τ A)) (c : Call σ τ Q)
        (next : Call.Answer A c → Prog (calls σ τ A) Unit),
    w.threads () = some ⟨seen, .call c next⟩ →
    ∀ (answer : Call.Answer A c) (after o : _), w.state.answers c answer after →
      w.state.stored = some o → controllerFinalizerName ∈ o.metadata.finalizers →
      ¬ HasController after → drops seen o

section Rule

variable {R : WriteRules A σ τ} {program : Prog (calls σ τ A) Result} {o new : Resource σ τ}

/-- Every object that a reconcile has seen is known. -/
theorem alone_invariant (R : WriteRules A σ τ) (program : Prog (calls σ τ A) Result) :
    (alone program).Invariant (fun _ => R.contract) (fun _ => True) (fun _ _ => True)
      (fun _ => True) (fun _ s seen => Seen s seen) where
  init := fun _ _ => trivial
  fresh := by
    intro p s _ v last
    cases last
  drift := by
    intro w after _ own moved _
    exact ⟨trivial, fun p t running => (own p t running).advances moved⟩
  act := by
    intro w after p seen c answer _ known guarded answered _
    refine ⟨known.rely answered, trivial, known.answered answered, ?_⟩
    intro q other different
    exact absurd rfl different

omit [DecidableEq σ] [DecidableEq τ] in
/-- A write that loses the finalizer is one that drops it. -/
theorem Saved.drops {seen : Trace (calls σ τ A)} (saved : R.Saved seen o new)
    (held : controllerFinalizerName ∈ o.metadata.finalizers)
    (lost : controllerFinalizerName ∉ new.metadata.finalizers) : R.drops seen o := by
  cases saved.finalizes with
  | kept same => exact absurd ((same _ (by decide)).mpr held) lost
  | ensured stays both => exact absurd (both _ (by decide)) lost
  | dropped goes allowed controller defender => exact allowed.2

/-- Where no object with the finalizer is stored after a write, the object that was
written has lost it. -/
theorem write_lost {s : Server σ τ} (stored : s.stored = some o)
    (held : controllerFinalizerName ∈ o.metadata.finalizers)
    (gone : ¬ HasController (s.write o new).1) :
    controllerFinalizerName ∉ new.metadata.finalizers := by
  intro present
  unfold Server.write at gone
  split at gone
  · exact gone ⟨o, stored, held⟩
  split at gone
  · rename_i garbage
    rw [garbage.2] at present
    cases present
  · exact gone ⟨_, rfl, present⟩

/-- A controller that keeps to its rules drops its finalizer only as they allow. -/
theorem dropsOnly_of_obeys (obeys : Abides R.contract [] program) : DropsOnly program R.drops := by
  intro w reached seen c next running answer after o answered stored held gone
  have programs : ∀ p, Abides R.contract [] ((alone program).program p) :=
    fun _ => Obeys.bind_any obeys fun _ _ => trivial
  obtain ⟨known, guarded, _⟩ :=
    (Machine.Reach.invariant programs (alone_invariant R program) reached).2 () _ running
  rcases guarded_write known guarded answered with ⟨rfl, _⟩ | ⟨v, new, found, saved, rfl, _⟩
  · exact absurd ⟨o, stored, held⟩ gone
  obtain rfl : o = v := by
    rw [stored] at found
    exact Option.some.inj found
  exact Saved.drops saved held (write_lost stored held gone)

end Rule

/-- The direct controller takes its finalizer off an object only if the object has the
abandon annotation, or the reconcile has found the resource absent, or the delete call
has succeeded or failed because the resource was gone. For the Terraform controller
the reason may also be a parent object that is not there, or an id of the resource
that the server has never generated. -/
theorem controller_finalizer_dropped_only (gvk : GroupVersionKind) :
    DropsOnly (Direct.reconcile : Prog (Direct.S σ τ) Result) Direct.Drops ∧
      DropsOnly (Terraform.reconcile gvk : Prog (S σ τ) Result) Terraform.Drops :=
  ⟨dropsOnly_of_obeys (R := Direct.rules σ τ) Direct.reconcile_obeys,
    dropsOnly_of_obeys (R := Terraform.rules σ τ) (Terraform.reconcile_obeys gvk)⟩

section Replay

/-- The reasons that come from a lookup or from the annotation. -/
def LookedUp (seen : Trace (S σ τ)) (v : Resource σ τ) : Prop :=
  v.metadata.hasAbandonAnnotation = true ∨ Terraform.FoundAbsent seen ∨ Terraform.Orphaned seen ∨
    Terraform.Destroyed seen

def folderKind : GroupVersionKind := ⟨"resourcemanager.cnrm.cloud.google.com", "v1beta1", "Folder"⟩

/-- A folder that is being deleted and whose status has no folder id. -/
def folder (resourceVersion : Nat) (status : Status Unit) : Resource Unit Unit where
  metadata := { ObjectMeta.created "ns" "folder" with
    finalizers := [controllerFinalizerName]
    deletionTimestamp := some 7
    generation := 2
    resourceVersion
    managedFields := ["kubectl"] }
  spec := ()
  status

def reported (reason message : String) : Status Unit :=
  ⟨[newCustomReadyCondition .false reason message], some 2, ()⟩

def folderConfig : ResourceConfig := ⟨false, false, true, false, false, false⟩

/-- The folder is taken for one never created: its finalizer is dropped, and nothing
has been read from GCP. -/
theorem dropped_without_lookup :
    ¬ DropsOnly (Terraform.reconcile folderKind : Prog (S Unit Unit) Result) LookedUp := by
  intro only
  have init := @Machine.Reach.init _ (alone (Terraform.reconcile folderKind)) _ (fun _ => True)
    (fun _ _ => True) (.holding (folder 3 ⟨[], none, ()⟩)) trivial
  have started := init.start ()
  have read := started.reply () rfl (Except.ok (folder 3 ⟨[], none, ()⟩)) _
    ⟨rfl, .found _ rfl⟩
  have mapped := read.reply () rfl (Except.ok ()) _
  have defaulted := mapped.reply () rfl (Except.ok none) _
  have parsed := defaulted.reply () rfl (Except.ok folderConfig) _
  have policy := parsed.reply () rfl (Except.ok none) _
  have hierarchical := policy.reply () rfl (Except.ok ()) _
  have state := hierarchical.reply () rfl (Except.ok (⟨"cluster", none⟩, ⟨none⟩)) _
  have transformed := state.reply () rfl (Except.ok ((), ())) _
  have deleting := transformed.reply () rfl
    (Reply.object (folder 4 (reported "Deleting" "Deletion in progress")))
    (.holding (folder 4 (reported "Deleting" "Deletion in progress"))) (.done _ _ rfl)
  have hooked := deleting.reply () rfl (Except.ok ()) _
  have unlinked := hooked.reply () rfl (Except.error (.plain "no selfLink")) _
  have parentless := unlinked.reply () rfl (Except.ok []) _
  have unidentified := parentless.reply () rfl
    (Except.error (.leaf .serverGeneratedIDNotFound "no folder id")) _
  have actuated := unidentified.reply () rfl (Except.ok ((), ())) _
  have deleted := actuated.reply () rfl
    (Reply.object (folder 5 (reported "Deleted" "Successfully deleted")))
    (.holding (folder 5 (reported "Deleted" "Successfully deleted"))) (.done _ _ rfl)
  have last := deleted.reply () rfl (Except.ok ()) _
  have looked := only _ last _ _ _ rfl (.error (.plain "timeout")) _ _ (.lost _ _ _ rfl) rfl
    (by decide) (by rintro ⟨o, stored, _⟩; cases stored)
  rcases looked with abandon | ⟨state, live, asked, _⟩ | ⟨key, err, asked, _⟩ | asked
  · exact absurd abandon (by decide)
  · have made := List.mem_map_of_mem (f := Sigma.fst) asked
    simp at made
  · have made := List.mem_map_of_mem (f := Sigma.fst) asked
    simp at made
  · have made := List.mem_map_of_mem (f := Sigma.fst) asked
    simp at made

end Replay

end ConfigConnector.Managed
