import RobotScript.Proofs.ErrorEvidence
import RobotScript.Proofs.GeneratorCode

/-!
# The stack of instructions

The machine keeps the instructions whose bodies it is inserting on a stack, and counts the levels
that are open. Both change on the way into a statement and are put back on the way out, except that
a failure leaves the stack as it was where it arose. Here it is shown what they are wherever the
machine comes to a statement, in every run, also one that runs into a circle of calls or out of
levels: the stack is a way of calls without repetition, the count is the number of open statements
that are levels, and there are no more instructions on the stack than levels.

## Main definitions

* `Visit.Sound` — what is so wherever the machine comes to a statement.
* `Generator.Opened` — what is so once the statement is open.

## Main results

* `Statement.Path.snoc`: a way through the tree of statements goes on to a node below.
* `Runs.visits_sound`: **every statement is come to in a sound state**.
* `runs_end_and_keep_stack`: the invariant for complete runs, with what a run restores, and that
  every run ends.
-/

namespace RobotScript

/-- A way through the tree of statements goes on to a node below its last one. -/
theorem Statement.Path.snoc {defs : Definitions} {root s t : Statement} {path : List Statement}
    (h : Path defs root path) (hlast : path.getLast? = some s) (ht : t ∈ s.nodesBelow defs) :
    Path defs root (path ++ [t]) := by
  induction h with
  | root root =>
    obtain rfl : root = s := Option.some.inj hlast
    exact .down ht (.root t)
  | @down root next path hnext hpath ih =>
    rw [List.getLast?_cons, List.getLast?_eq_some_getLast hpath.ne_nil] at hlast
    exact .down hnext (ih (by rw [List.getLast?_eq_some_getLast hpath.ne_nil]; exact hlast))

/-- Opening one more statement opens a level if it is one. -/
theorem Statement.openCount_concat (path : List Statement) (s : Statement) :
    openCount (path ++ [s]) = openCount path + s.nests.toNat := by
  rw [openCount, List.countP_append, openCount, List.countP_singleton]
  cases s with
  | block | ifThen | ifElse | whileDo | call => rfl

/-- What is so wherever the machine comes to a statement. -/
structure Visit.Sound (defs : Definitions) (root : Statement) (v : Visit) : Prop where
  /-- The stack holds instructions without repetition, each of which calls the next. -/
  inserting : Statement.Inserting defs root v.expanding v.statement
  /-- The open statements lead from the main body to the statement. -/
  path : Statement.Path defs root (v.around ++ [v.statement])
  depth_eq : v.depth = Statement.openCount v.around
  length_le : v.expanding.length ≤ v.depth
  depth_le : v.depth ≤ maxDepth

namespace Generator

variable {defs : Definitions} {root : Statement} {around : List Statement} {s : Statement}
  {g g₁ g' : Generator} {result : Except CompileError Unit}

/-- What is so once a statement is open: it is the last of the open ones, and if it is a level there
is one level more than instructions on the stack. -/
structure Opened (defs : Definitions) (root : Statement) (around : List Statement) (s : Statement)
    (g : Generator) : Prop where
  inserting : Statement.Inserting defs root g.expanding s
  path : Statement.Path defs root around
  getLast?_eq : around.getLast? = some s
  depth_eq : g.depth = Statement.openCount around
  length_le : g.expanding.length + s.nests.toNat ≤ g.depth
  depth_le : g.depth ≤ maxDepth

/-- A statement is opened in a sound state, unless there is no level left for it. -/
theorem Opened.of_sound (h : Visit.Sound defs root ⟨around, s, g.expanding, g.depth⟩)
    (hlevel : s.nests = true → g.depth ≠ maxDepth) :
    Opened defs root (around ++ [s]) s ((g.visit around s).enter s) := by
  have hdepth : g.depth = Statement.openCount around := h.depth_eq
  have hlength : g.expanding.length ≤ g.depth := h.length_le
  have hle : g.depth ≤ maxDepth := h.depth_le
  refine ⟨h.inserting, h.path, List.getLast?_concat, ?_, ?_, ?_⟩
  · rw [Statement.openCount_concat, ← hdepth]
    rfl
  · simp only [enter_expanding, visit_expanding, enter_depth, visit_depth]
    omega
  · simp only [enter_depth, visit_depth]
    cases hs : s.nests with
    | false => simpa using hle
    | true =>
      have := hlevel hs
      simp
      omega

/-- The parts of an open statement are come to in a sound state, whatever was generated before. -/
theorem Opened.part (h : Opened defs root around s g) (hs : s.call? = none) {t : Statement}
    (ht : t ∈ s.nodesBelow defs) (hexpanding : g₁.expanding = g.expanding)
    (hdepth : g₁.depth = g.depth) :
    Visit.Sound defs root ⟨around, t, g₁.expanding, g₁.depth⟩ := by
  have hlength := h.length_le
  rw [hexpanding, hdepth]
  exact ⟨h.inserting.part hs ht, h.path.snoc h.getLast?_eq ht, h.depth_eq, by simp; omega,
    h.depth_le⟩

/-- The body of an instruction that is called is come to in a sound state. -/
theorem Opened.body {name : String} {body : Statement} (h : Opened defs root around (.call name) g)
    (hact : Action.ofName? name = none) (hfind : defs.find? name = some body)
    (hmem : name ∉ g.expanding) :
    Visit.Sound defs root ⟨around, body, (g.push name).expanding, (g.push name).depth⟩ := by
  have hlength : g.expanding.length + 1 ≤ g.depth := h.length_le
  have hbelow : body ∈ (Statement.call name).nodesBelow defs := by
    simp [Statement.nodesBelow_call hact hfind]
  exact ⟨h.inserting.body hact hfind hmem, h.path.snoc h.getLast?_eq hbelow, h.depth_eq,
    by simpa using hlength, h.depth_le⟩

/-- All statements so far were come to in a sound state. -/
def VisitsSound (defs : Definitions) (root : Statement) (g : Generator) : Prop :=
  ∀ v ∈ g.visits, v.Sound defs root

theorem VisitsSound.visit (h : g.VisitsSound defs root)
    (hv : Visit.Sound defs root ⟨around, s, g.expanding, g.depth⟩) :
    (g.visit around s).VisitsSound defs root := by
  intro v hmem
  rw [visits, visit_log, List.filterMap_append] at hmem
  rcases List.mem_append.mp hmem with hmem | hmem
  · exact h v hmem
  · rw [List.mem_singleton.mp hmem]
    exact hv

/-- What is noted besides does not matter. -/
theorem VisitsSound.of_eq (h : g.VisitsSound defs root) (hvisits : g'.visits = g.visits) :
    g'.VisitsSound defs root := by
  rwa [VisitsSound, hvisits]

@[simp]
theorem visits_patch (slot target : Nat) : (g.patch slot target).visits = g.visits := by
  simp [visits, Entry.visit?]

@[simp]
theorem visits_push (name : String) : (g.push name).visits = g.visits := by
  simp [visits, Entry.visit?]

theorem VisitsSound.onSuccess {f : Generator → Generator} (h : g.VisitsSound defs root)
    (hvisits : (f g).visits = g.visits) : (onSuccess result f g).VisitsSound defs root := by
  cases result with
  | error e => exact h
  | ok => exact h.of_eq hvisits

/-- **Every statement is come to in a sound state.** The induction is that over the runs that end; a
part that runs after another one finds the depth and the stack restored. -/
theorem Runs.visits_sound (h : Runs defs around s g result g')
    (hs : Visit.Sound defs root ⟨around, s, g.expanding, g.depth⟩)
    (hg : g.VisitsSound defs root) : g'.VisitsSound defs root := by
  revert hs hg
  refine @Runs.rec defs
    (fun around s g _ g' _ => Visit.Sound defs root ⟨around, s, g.expanding, g.depth⟩ →
      g.VisitsSound defs root → g'.VisitsSound defs root)
    (fun around s g _ g' _ => Opened defs root around s g →
      g.VisitsSound defs root → g'.VisitsSound defs root)
    (fun around body g _ g' _ =>
      (∀ s ∈ body, Visit.Sound defs root ⟨around, s, g.expanding, g.depth⟩) →
      g.VisitsSound defs root → g'.VisitsSound defs root)
    ?noLevel ?level ?block ?ifThen ?thenFails ?ifElse ?whileDo ?action ?undefined ?recursive
      ?instruction ?nil ?firstFails ?cons around s g result g' h
  case noLevel =>
    intro around s g _ _ hs hg
    exact hg.visit hs
  case level =>
    intro around s _ g g' hlevel _ ih hs hg
    exact ih (.of_sound hs hlevel) (hg.visit hs)
  case block =>
    intro around body _ g g' _ ih hopened hg
    exact ih (fun s hs => hopened.part rfl hs rfl rfl) hg
  case ifThen =>
    intro around c body _ g g' _ ih hopened hg
    have hbody := ih (hopened.part rfl (by simp [Statement.nodesBelow]) rfl rfl) hg
    exact hbody.onSuccess (visits_patch _ _)
  case thenFails =>
    intro around c thenBody elseBody _ g g' _ ih hopened hg
    exact ih (hopened.part rfl (by simp [Statement.nodesBelow]) rfl rfl) hg
  case ifElse =>
    intro around c thenBody elseBody _ g g₁ g' hrun _ ih ih' hopened hg
    obtain ⟨hdepth, hexpanding⟩ := hrun.restores
    have hthen := ih (hopened.part rfl (by simp [Statement.nodesBelow]) rfl rfl) hg
    have helse := ih' (hopened.part rfl (by simp [Statement.nodesBelow]) (hexpanding rfl) hdepth)
      (hthen.of_eq (visits_patch _ _))
    exact helse.onSuccess (visits_patch _ _)
  case whileDo =>
    intro around c body _ g g' _ ih hopened hg
    have hbody := ih (hopened.part rfl (by simp [Statement.nodesBelow]) rfl rfl) hg
    exact hbody.onSuccess (visits_patch _ _)
  case action =>
    intro around name action g _ _ hg
    exact hg
  case undefined =>
    intro around name g _ _ _ hg
    exact hg
  case recursive =>
    intro around name body g _ _ _ _ hg
    exact hg
  case instruction =>
    intro around name body _ g g' hact hfind hmem _ ih hopened hg
    have hbody := ih (hopened.body hact hfind hmem) (hg.of_eq (visits_push name))
    exact hbody.onSuccess rfl
  case nil =>
    intro around g _ hg
    exact hg
  case firstFails =>
    intro around s rest _ g g' _ ih hbody hg
    exact ih (hbody s List.mem_cons_self) hg
  case cons =>
    intro around s rest _ g g₁ g' hrun _ ih ih' hbody hg
    obtain ⟨hdepth, hexpanding⟩ := hrun.restores
    refine ih' (fun t ht => ?_) (ih (hbody s List.mem_cons_self) hg)
    rw [hexpanding rfl, hdepth]
    exact hbody t (List.mem_cons_of_mem s ht)

/-- **The stack is a way of calls without repetition, and every run ends.** From every state there
is one run; it leaves the depth as it was, and the stack too if it succeeds. In the run on a main
body, whether it succeeds or fails, the machine comes to each statement like this: the stack holds
defined instructions that are not actions, none of them twice, and each of them calls the next;
there are no more of them than levels are open, and no more levels than the limit; and the depth is
the number of open statements that are not sequences, which lead from the main body to the
statement. -/
theorem runs_end_and_keep_stack (defs : Definitions) :
    (∀ around s g, ∃! outcome : Except CompileError Unit × Generator,
      Runs defs around s g outcome.1 outcome.2) ∧
    (∀ around s g result g', Runs defs around s g result g' →
      g'.depth = g.depth ∧ (result = .ok () → g'.expanding = g.expanding)) ∧
    ∀ body result g, Runs defs [] body new result g →
      finish defs result g = body.compile defs ∧
      ∀ v ∈ g.visits,
        v.expanding.Nodup ∧
        (∀ name ∈ v.expanding, Action.ofName? name = none ∧ defs.contains name = true) ∧
        v.expanding.IsChain defs.Leads ∧
        v.expanding.length ≤ v.depth ∧ v.depth ≤ maxDepth ∧
        v.depth = Statement.openCount v.around ∧
        Statement.Path defs body (v.around ++ [v.statement]) := by
  refine ⟨fun around s g => ?_, fun around s g result g' hrun => ?_, fun body result g hrun =>
    ⟨finish_eq_compile hrun, fun v hv => ?_⟩⟩
  · obtain ⟨result, g', hrun⟩ := exists_runs defs around s g
    refine ⟨(result, g'), hrun, fun outcome houtcome => ?_⟩
    obtain ⟨hresult, hg'⟩ := hrun.unique houtcome
    exact Prod.ext hresult hg'
  · have hrestores := hrun.restores
    exact ⟨hrestores.depth, hrestores.expanding⟩
  · have hroot : Visit.Sound defs body ⟨[], body, [], 0⟩ :=
      ⟨.initial body, .root body, rfl, Nat.le_refl 0, Nat.zero_le maxDepth⟩
    obtain ⟨hinserting, hpath, hdepth, hlength, hle⟩ :=
      hrun.visits_sound hroot (by simp [VisitsSound, visits, new]) v hv
    exact ⟨hinserting.nodup, hinserting.instruction, hinserting.leads, hlength, hle, hdepth, hpath⟩

/-- A loop that calls two instructions, which call one another. -/
def hunt : Statement :=
  .whileDo .always (.call "chase")

/-- What the loop calls. -/
def huntDefinitions : Definitions :=
  .ofList [("chase", .ifThen .random (.call "strike")),
    ("strike", .block [.call "infect", .call "chase"])]

/-- Where the circle is closed. -/
def huntVisit : Visit :=
  ⟨[hunt, .call "chase", .ifThen .random (.call "strike"), .call "strike",
    .block [.call "infect", .call "chase"]], .call "chase", ["chase", "strike"], 4⟩

/-- The run on `hunt` fails at the second call of `"chase"`, with both instructions on the stack and
four levels open; each of the two calls the next. Also from a state in which more levels are open
than the limit allows there is a run, and it puts the depth back. -/
theorem runs_end_and_keep_stack_hunt :
    (∃ g, Runs huntDefinitions [] hunt new
        (.error (.recursive ["chase", "strike", "chase"])) g ∧ huntVisit ∈ g.visits) ∧
    huntVisit.expanding.IsChain huntDefinitions.Leads ∧
    Statement.openCount huntVisit.around = 4 ∧
    Statement.Path huntDefinitions hunt (huntVisit.around ++ [huntVisit.statement]) ∧
    ∃ result g', Runs huntDefinitions [] hunt { new with depth := 600 } result g' ∧
      g'.depth = 600 := by
  obtain ⟨hends, hrestores, hmain⟩ := runs_end_and_keep_stack huntDefinitions
  have hchase : huntDefinitions.find? "chase" = some (.ifThen .random (.call "strike")) := by cbv
  have hstrike : huntDefinitions.find? "strike" =
      some (.block [.call "infect", .call "chase"]) := by cbv
  have hinfect : Action.ofName? "infect" = some .infect := by cbv
  have hnone : Action.ofName? "chase" = none ∧ Action.ofName? "strike" = none := by
    constructor <;> cbv
  have hrun : ∃ g, Runs huntDefinitions [] hunt new
      (.error (.recursive ["chase", "strike", "chase"])) g ∧ huntVisit ∈ g.visits := by
    refine ⟨_, .level ?_ (.whileDo (.level ?_ (.instruction hnone.1 hchase ?_ (.level ?_ (.ifThen
      (.level ?_ (.instruction hnone.2 hstrike ?_ (.level ?_ (.block (.cons
        (.level ?_ (.action hinfect)) (.firstFails (.level ?_
          (.recursive hnone.1 hchase ?_))))))))))))), List.mem_of_getLast? rfl⟩
    all_goals decide
  obtain ⟨g, hruns, hmem⟩ := hrun
  obtain ⟨-, -, hleads, -, -, hdepth, hpath⟩ := (hmain hunt _ g hruns).2 huntVisit hmem
  obtain ⟨⟨result, g'⟩, hrun', -⟩ := hends [] hunt { new with depth := 600 }
  exact ⟨⟨g, hruns, hmem⟩, hleads, hdepth.symm, hpath, result, g', hrun',
    (hrestores _ _ _ _ _ hrun').1⟩

end Generator

end RobotScript
