import ParseEmbedded.Library.Runs
import ParseEmbedded.Rtos.ClientState

/-!
# The certificate file of the CC3200

`ensureCertificateFile` of `certificate_file.c`. The certificate is in the flash if a file of that
name can be opened for reading; if not, the file is created, opened again and written. How each of
these operations ends is an input, as for the state file. Nothing looks at the size of the file or
at its bytes, so a file that was created and not written is taken for the certificate by every
later call that can open it (`certificate_file_iff`), and it never becomes the certificate
(`opened_stays`). `saveClientState` deletes its file before it creates it.
-/

set_option autoImplicit false

namespace ParseEmbedded.Rtos

open Runs

/-! ## The source -/

/-- The course of a call: how its operations end, and how many of the bytes stored the file keeps
if it is not closed. -/
structure CertificateCourse where
  check : Ending
  create : Deed
  reopen : Ending
  write : Writing
  close : Ending
  kept : Nat

namespace CertificateCourse

/-- The file can be opened for reading. -/
def Opens (course : CertificateCourse) (file : Option (List Byte)) : Prop :=
  file ≠ none ∧ course.check = .done

instance (course : CertificateCourse) (file : Option (List Byte)) :
    Decidable (course.Opens file) := inferInstanceAs (Decidable (_ ∧ _))

/-- The bytes of a file that was opened for writing, in the end. -/
def written (course : CertificateCourse) (certificate : List Byte) : List Byte :=
  let stored := if course.write.ending = .done then certificate
    else certificate.take course.write.stored
  if course.write.ending ≠ .powerLost ∧ course.close = .done then stored
  else stored.take course.kept

end CertificateCourse

/-- What becomes of the file in `ensureCertificateFile`. -/
def ensureCertificateFile (certificate : List Byte) (course : CertificateCourse)
    (file : Option (List Byte)) : Option (List Byte) :=
  if course.check = .powerLost then file
  else if course.Opens file then file
  else
    let file := if course.create.taken then some [] else file
    if course.create.ending ≠ .done ∨ course.reopen ≠ .done then file
    else some (course.written certificate)

/-! ## Runs of calls -/

abbrev CertificateTransition := Runs.Transition (Option (List Byte)) CertificateCourse Unit

/-- A call as a step of the file. -/
def certificateStep (certificate : List Byte) (file : Option (List Byte))
    (course : CertificateCourse) : Option (List Byte) × Unit :=
  (ensureCertificateFile certificate course file, ())

/-- Every operation of the call succeeds. Only the first one cannot, where there is no file. -/
structure CertificateCourse.Succeeds (course : CertificateCourse) (file : Option (List Byte)) :
    Prop where
  check : course.check = .done
  create : file = none → course.create.ending = .done
  reopen : file = none → course.reopen = .done
  write : file = none → course.write.ending = .done
  close : file = none → course.close = .done

/-- A call in which all goes well leaves the certificate, and a call that can open something else
does not leave it as it is. -/
structure SelfRepairs (certificate : List Byte) (t : CertificateTransition) : Prop where
  exact : t.input.Succeeds t.before → t.after = some certificate
  rejects : ∀ left, t.before = some left → left ≠ certificate → t.input.check = .done →
    t.after ≠ some left

/-- A file that is there, and not the certificate. -/
def IsWreck (certificate : List Byte) (file : Option (List Byte)) : Prop :=
  ∃ left, file = some left ∧ left ≠ certificate

/-- The call finds no wreck that it can open. -/
def FindsNoWreck (certificate : List Byte) (t : CertificateTransition) : Prop :=
  t.input.check = .done → ¬ IsWreck certificate t.before

/-- The file is made, and not written as a whole. -/
structure CertificateCourse.Interrupted (course : CertificateCourse) (certificate : List Byte) :
    Prop where
  created : course.create.taken = true
  broken : course.create.ending = .done → course.reopen = .done →
    course.written certificate ≠ certificate

section Calls

variable {certificate : List Byte} {course : CertificateCourse} {file : Option (List Byte)}

theorem ensureCertificateFile_opens (opens : course.Opens file) :
    ensureCertificateFile certificate course file = file := by
  rw [ensureCertificateFile, if_pos opens]
  split
  · rfl
  · rfl

/-- A call that does not open the file leaves it, empties it or writes it. -/
theorem ensureCertificateFile_cases (certificate : List Byte) (course : CertificateCourse)
    (file : Option (List Byte)) :
    ensureCertificateFile certificate course file = file ∨
      course.create.taken = true ∧
        (course.create.ending ≠ .done ∨ course.reopen ≠ .done) ∧
          ensureCertificateFile certificate course file = some [] ∨
      course.create.taken = true ∧ course.create.ending = .done ∧ course.reopen = .done ∧
        ensureCertificateFile certificate course file = some (course.written certificate) := by
  rw [ensureCertificateFile]
  by_cases lost : course.check = .powerLost
  · exact Or.inl (if_pos lost)
  rw [if_neg lost]
  by_cases opens : course.Opens file
  · exact Or.inl (if_pos opens)
  rw [if_neg opens]
  dsimp only
  by_cases stops : course.create.ending ≠ .done ∨ course.reopen ≠ .done
  · rw [if_pos stops]
    cases taken : course.create.taken with
    | true => exact Or.inr (Or.inl ⟨rfl, stops, rfl⟩)
    | false => exact Or.inl rfl
  · obtain ⟨created, reopened⟩ := not_or.mp stops
    have created := not_not.mp created
    rw [if_neg stops]
    exact Or.inr (Or.inr ⟨course.create.holds created, created, not_not.mp reopened, rfl⟩)

theorem CertificateCourse.written_done (write : course.write.ending = .done)
    (close : course.close = .done) : course.written certificate = certificate := by
  rw [written, if_pos write]
  refine if_pos ⟨?_, close⟩
  rw [write]
  decide

/-- Where there is no file, a call in which all goes well writes the certificate. -/
theorem ensureCertificateFile_succeeds (succeeds : course.Succeeds none) :
    ensureCertificateFile certificate course none = some certificate := by
  obtain ⟨check, create, reopen, write, close⟩ := succeeds
  have notLost : course.check ≠ .powerLost := by
    rw [check]
    decide
  have notOpened : ¬ course.Opens none := fun opens => opens.1 rfl
  have goesOn : ¬ (course.create.ending ≠ .done ∨ course.reopen ≠ .done) :=
    not_or.mpr ⟨not_not.mpr (create rfl), not_not.mpr (reopen rfl)⟩
  rw [ensureCertificateFile, if_neg notLost, if_neg notOpened]
  dsimp only
  rw [if_neg goesOn, CertificateCourse.written_done (write rfl) (close rfl)]

end Calls

variable {certificate : List Byte}

/-- A file that can be opened stays what it is. -/
theorem opened_stays {left : List Byte} {course : CertificateCourse}
    (check : course.check = .done) :
    ensureCertificateFile certificate course (some left) = some left :=
  ensureCertificateFile_opens ⟨Option.some_ne_none left, check⟩

/-- **One call.** It repairs what it finds exactly if it finds no wreck that it can open. -/
theorem selfRepairs_iff (file : Option (List Byte)) (course : CertificateCourse) :
    FindsNoWreck certificate (fire (certificateStep certificate) file course) ↔
      SelfRepairs certificate (fire (certificateStep certificate) file course) := by
  constructor
  · intro noWreck
    refine ⟨fun succeeds => ?_, ?_⟩
    · change ensureCertificateFile certificate course file = some certificate
      cases there : file with
      | none => exact ensureCertificateFile_succeeds (there ▸ succeeds)
      | some left =>
          have isCertificate : left = certificate := by
            by_contra other
            exact noWreck succeeds.check ⟨left, there, other⟩
          exact (opened_stays succeeds.check).trans (congrArg some isCertificate)
    · intro left there other check
      exact absurd ⟨left, there, other⟩ (noWreck check)
  · rintro repairs check ⟨left, there, other⟩
    change file = some left at there
    subst there
    exact repairs.rejects left rfl other check (opened_stays check)

/-- A call that is not interrupted makes no wreck. -/
theorem noWreck_step {file : Option (List Byte)} {course : CertificateCourse}
    (none : ¬ IsWreck certificate file) (whole : ¬ course.Interrupted certificate) :
    ¬ IsWreck certificate (ensureCertificateFile certificate course file) := by
  rcases ensureCertificateFile_cases certificate course file with
    same | ⟨taken, stops, -⟩ | ⟨taken, created, reopened, written⟩
  · rw [same]
    exact none
  · refine absurd ⟨taken, fun created reopened => ?_⟩ whole
    exact absurd stops (not_or.mpr ⟨not_not.mpr created, not_not.mpr reopened⟩)
  · have isCertificate : course.written certificate = certificate := by
      by_contra other
      exact whole ⟨taken, fun _ _ => other⟩
    rw [written, isCertificate]
    rintro ⟨left, same, other⟩
    exact other (Option.some.inj same).symm

/-- **A wreck comes from an interrupted call.** -/
theorem run_interrupted (courses : List CertificateCourse) :
    ∀ {file : Option (List Byte)}, ¬ IsWreck certificate file →
      (∀ course ∈ courses, ¬ course.Interrupted certificate) →
        ∀ t ∈ run (certificateStep certificate) file courses, ¬ IsWreck certificate t.before := by
  intro file none whole t member
  have along := run_invariant (certificateStep certificate) (fun file => ¬ IsWreck certificate file)
    (fun t => ¬ t.input.Interrupted certificate) (fun _ _ => noWreck_step) courses none
    fun t member => whole t.input (input_mem_of_mem _ member)
  exact (along.1 t member).1

/-- **An interrupted call spoils the next ones.** The file it leaves is opened, and not written. -/
theorem interrupted_spoils (nonempty : certificate ≠ []) {course next : CertificateCourse}
    {file : Option (List Byte)} (interrupted : course.Interrupted certificate)
    (notLost : course.check ≠ .powerLost) (notOpened : ¬ course.Opens file)
    (check : next.check = .done) :
    ¬ SelfRepairs certificate (fire (certificateStep certificate)
      (ensureCertificateFile certificate course file) next) := by
  have wreck : IsWreck certificate (ensureCertificateFile certificate course file) := by
    rw [ensureCertificateFile, if_neg notLost, if_neg notOpened]
    dsimp only
    rw [if_pos interrupted.created]
    split
    · exact ⟨[], rfl, nonempty.symm⟩
    · rename_i goesOn
      obtain ⟨created, reopened⟩ := not_or.mp goesOn
      exact ⟨_, rfl, interrupted.broken (not_not.mp created) (not_not.mp reopened)⟩
  intro repairs
  exact (selfRepairs_iff _ next).mpr repairs check wreck

/-- **When the certificate file repairs itself.** Along a run from an empty flash all calls do what
they should exactly if none of them can open a file that is not the certificate. No such file is
ever there if each call that makes the file writes it as a whole. -/
theorem certificate_file_iff (certificate : List Byte) (courses : List CertificateCourse) :
    ((∀ t ∈ run (certificateStep certificate) none courses, SelfRepairs certificate t) ↔
      ∀ t ∈ run (certificateStep certificate) none courses, FindsNoWreck certificate t) ∧
    ((∀ course ∈ courses, ¬ course.Interrupted certificate) →
      ∀ t ∈ run (certificateStep certificate) none courses, SelfRepairs certificate t) := by
  have exactly := run_forall_iff (certificateStep certificate) (fun _ => True)
    (FindsNoWreck certificate) (SelfRepairs certificate)
    (fun file course _ => selfRepairs_iff file course) (fun _ _ _ _ => trivial) courses
    (s := none) trivial
  have noWreck : ¬ IsWreck certificate none := fun ⟨left, same, _⟩ =>
    absurd same.symm (Option.some_ne_none left)
  refine ⟨exactly.symm, fun whole => exactly.mp fun t member _ => ?_⟩
  exact run_interrupted courses noWreck whole t member

/-- The file is created, and cannot be opened again; then a call in which all goes well. -/
def interruptedCourses : List CertificateCourse :=
  [⟨.done, ⟨true, .done, fun _ => rfl⟩, .failed, ⟨0, .done⟩, .done, 0⟩,
    ⟨.done, ⟨true, .done, fun _ => rfl⟩, .done, ⟨0, .done⟩, .done, 0⟩]

/-- The empty file stays. -/
theorem certificate_file_counterexample :
    ¬ ∀ (certificate : List Byte) (courses : List CertificateCourse),
      ∀ t ∈ run (certificateStep certificate) none courses, SelfRepairs certificate t := by
  intro always
  have repairs := always [48] interruptedCourses
  simp only [interruptedCourses, run_cons, List.forall_mem_cons] at repairs
  have exact := repairs.2.1.exact
    ⟨rfl, fun none => absurd none (by decide), fun none => absurd none (by decide),
      fun none => absurd none (by decide), fun none => absurd none (by decide)⟩
  revert exact
  decide

end ParseEmbedded.Rtos
