import IdlFormat.Proofs.FormatRun
import IdlFormat.Proofs.Place

/-!
# Calls that are taken

Before a run starts, the call is read and the configuration loaded. Neither touches the workspace
unless it halts (`Keeps`), and a call is taken only if there is something at each of its paths
(`located_of_readFormatCall`).
-/

namespace IdlFormat

namespace Command

namespace Session

variable {α β ι : Type} {first : Session α} {next : α → Session β} {workspace after : Workspace}

/-- A session that returns leaves the workspace as it was. -/
def Keeps (session : Session α) : Prop :=
  ∀ workspace value after, session.Returns workspace value after → workspace = after

theorem keeps_pure (value : α) : (pure value : Session α).Keeps := by
  intro workspace own after ran
  exact (returns_pure_iff.1 ran).2

theorem keeps_tree : Session.tree.Keeps := by
  intro workspace own after ran
  exact (returns_tree_iff.1 ran).2

theorem keeps_bind (early : first.Keeps) (late : ∀ value, (next value).Keeps) :
    (first >>= next).Keeps := by
  intro workspace value after ran
  rcases returns_bind_iff.1 ran with ⟨middle, between, first, rest⟩
  rw [early _ _ _ first, late middle _ _ _ rest]

theorem not_returns_exit {code : Nat} {value : α} :
    ¬ (exit code : Session α).Returns workspace value after := by
  intro ran
  cases ran

theorem not_returns_refuse {outline : Outline} {misuse : Misuse} {value : α} :
    ¬ (refuse outline misuse : Session α).Returns workspace value after := by
  intro ran
  cases ran

theorem not_returns_rejectValue {outline : Outline} {names : List Text} {rejection : Rejection}
    {value : α} :
    ¬ (rejectValue outline names rejection : Session α).Returns workspace value after := by
  intro ran
  cases rejection <;> cases ran

theorem not_returns_rejectConfig {surroundings : Surroundings} {fault : Config.Fault} {value : α} :
    ¬ (rejectConfig surroundings fault : Session α).Returns workspace value after := by
  intro ran
  unfold rejectConfig at ran
  split at ran <;> cases ran

theorem keeps_forIn {items : List ι} {init : β} {body : ι → β → Session (ForInStep β)}
    (keeps : ∀ item value, (body item value).Keeps) : (forIn items init body).Keeps := by
  induction items generalizing init with
  | nil => exact keeps_pure init
  | cons item items ih =>
      rw [List.forIn_cons]
      apply keeps_bind (keeps item init)
      intro step
      cases step with
      | done value => exact keeps_pure value
      | yield value => exact ih

/-- A loop that is not left early has gone through all its items. -/
theorem forall_of_forIn {items : List ι} {body : ι → PUnit → Session (ForInStep PUnit)}
    {passes : ι → Prop}
    (step : ∀ item result between, (body item ⟨⟩).Returns workspace result between →
      workspace = between ∧ result = .yield ⟨⟩ ∧ passes item)
    (ran : (forIn items ⟨⟩ body).Returns workspace ⟨⟩ after) :
    workspace = after ∧ ∀ item ∈ items, passes item := by
  induction items with
  | nil => exact ⟨(returns_pure_iff.1 ran).2, by simp⟩
  | cons item items ih =>
      rw [List.forIn_cons] at ran
      rcases returns_bind_iff.1 ran with ⟨result, between, early, late⟩
      rcases step item result between early with ⟨rfl, rfl, passed⟩
      rcases ih late with ⟨same, rest⟩
      exact ⟨same, List.forall_mem_cons.2 ⟨passed, rest⟩⟩

end Session

open Session FileTree

variable {workspace after : Workspace}

theorem keeps_readValue? {α : Type} {outline : Outline} {arguments : Arguments} {name : String}
    {reader : Reader α} : (readValue? outline arguments name reader).Keeps := by
  unfold readValue?
  split
  · exact keeps_pure _
  · apply keeps_bind keeps_tree
    intro tree
    split
    · exact keeps_pure _
    · exact fun _ _ _ ran => absurd ran not_returns_rejectValue

theorem keeps_readArguments {outline : Outline} {texts : List Text} :
    (readArguments outline texts).Keeps := by
  unfold readArguments
  split
  · exact fun _ _ _ ran => absurd ran not_returns_refuse
  · simp only
    split
    · intro workspace value after ran
      rcases returns_bind_iff.1 ran with ⟨_, _, -, ran⟩
      rcases returns_bind_iff.1 ran with ⟨_, _, ran, -⟩
      exact absurd ran not_returns_exit
    · exact keeps_pure _

theorem keeps_loadConfig {surroundings : Surroundings} {file : Option Text} :
    (loadConfig surroundings file).Keeps := by
  unfold loadConfig
  apply keeps_bind keeps_tree
  intro tree
  simp only
  split
  · exact fun _ _ _ ran => absurd ran not_returns_rejectConfig
  · split
    · exact fun _ _ _ ran => absurd ran not_returns_rejectConfig
    · exact keeps_pure _

theorem exists_locateText_of_pathOrDash {tree : FileTree} {text value : Text}
    (given : text ≠ ['-']) (taken : Reader.pathOrDash tree text = .ok value) :
    ∃ place, tree.locateText text = .ok place := by
  rw [Reader.pathOrDash, if_neg given, Reader.path] at taken
  cases leads : tree.locateText text with
  | ok place => exact ⟨place, rfl⟩
  | error obstacle => cases obstacle <;> simp [leads, bind, Except.bind] at taken

/-- Reading a call does not touch the workspace, and there is something at each path of a call that
is taken. -/
theorem located_of_readFormatCall {texts : List Text} {call : FormatCall}
    (ran : (readFormatCall texts).Returns workspace call after) :
    workspace = after ∧ ∀ text ∈ call.paths, text ≠ ['-'] →
      ∃ place, workspace.tree.locateText text = .ok place := by
  unfold readFormatCall at ran
  rcases returns_bind_iff.1 ran with ⟨arguments, _, split, ran⟩
  obtain rfl := keeps_readArguments _ _ _ split
  rcases returns_bind_iff.1 ran with ⟨_, _, options, ran⟩
  obtain rfl : workspace = _ := by
    refine keeps_forIn ?_ _ _ _ options
    intro name _
    split
    · exact keeps_bind (keeps_bind keeps_readValue? fun _ => keeps_pure _) fun _ => keeps_pure _
    · split
      · exact keeps_bind (keeps_bind keeps_readValue? fun _ => keeps_pure _) fun _ => keeps_pure _
      · exact keeps_pure _
  simp only at ran
  split at ran
  · rcases returns_bind_iff.1 ran with ⟨_, _, refused, -⟩
    exact absurd refused not_returns_refuse
  rcases returns_bind_iff.1 ran with ⟨tree, _, shown, ran⟩
  rcases returns_tree_iff.1 shown with ⟨rfl, rfl⟩
  rcases returns_bind_iff.1 ran with ⟨_, between, checked, ran⟩
  rcases returns_bind_iff.1 ran with ⟨width, _, valued, ran⟩
  rcases returns_pure_iff.1 ran with ⟨rfl, rfl⟩
  have checks : workspace = between ∧ ∀ text ∈ arguments.positional,
      ∃ value, Reader.pathOrDash workspace.tree text = .ok value := by
    refine forall_of_forIn ?_ checked
    intro text result between ran
    cases taken : Reader.pathOrDash workspace.tree text with
    | error rejection =>
        rw [taken] at ran
        rcases returns_bind_iff.1 ran with ⟨_, _, rejected, -⟩
        exact absurd rejected not_returns_rejectValue
    | ok value =>
        rw [taken] at ran
        rcases returns_pure_iff.1 ran with ⟨rfl, rfl⟩
        exact ⟨rfl, rfl, value, rfl⟩
  obtain ⟨rfl, taken⟩ := checks
  refine ⟨keeps_readValue? _ _ _ valued, ?_⟩
  intro text member given
  rcases taken text member with ⟨value, taken⟩
  exact exists_locateText_of_pathOrDash given taken

end Command

end IdlFormat
