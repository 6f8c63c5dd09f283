import PageTemplate.Proofs.Stages

namespace PageTemplate

open Network Stages

/-- A tree that has been taken is in the library with the next move. -/
inductive Keeping
  | reading
  | storing (node : Node)
  | finished

structure TemplateJob where
  key : String
  source : String
  capacity : Nat
  capacity_pos : 0 < capacity

namespace TemplateJob

variable (job : TemplateJob)

def State : Task 0 → Type
  | .fan => Keeping
  | t => Stages.State t

def keep (library : TemplateLibrary) : Keeping → Move (@Item 0) Keeping × TemplateLibrary
  | .reading => (.take .nodes (fun node => .storing node) .finished, library)
  | .storing node => (.turn .reading, library.append job.key [node])
  | .finished => (.stop, library)

def network : Network (Task 0) (Channel 0) TemplateLibrary where
  Item := Item
  State := State
  present _ := true
  start
    | .lexer => (⟨{}, [], Text.lines job.source.toList⟩ : Lexing)
    | .parser => Parsing.reading .idle
    | .fan => Keeping.reading
    | .evaluator k | .assembler k => k.elim0
  move
    | .lexer, library, state => (lex state, library)
    | .parser, library, state => (Stages.parse state, library)
    | .fan, library, state => job.keep library state
    | .evaluator k, _, _ | .assembler k, _, _ => k.elim0
  writes := writes
  reader := reader
  capacity _ := job.capacity

def opening (library : TemplateLibrary) : Moment job.network :=
  .first job.network (library.declare job.key)

theorem layered : job.network.Layered Job.depth 4 := by
  refine ⟨fun w => job.capacity_pos, fun {t v w} hv hw => ?_, fun hwrites hreader =>
    Job.depth_lt hwrites hreader, Job.depth_le⟩
  exact Option.some.inj ((Job.inlet_of_reader hv).symm.trans (Job.inlet_of_reader hw))

theorem keep_within (library : TemplateLibrary) (s : Keeping) :
    (job.keep library s).1.Within (writes .fan) fun w => reader w = some .fan := by
  cases s with
  | reading => rfl
  | storing node => trivial
  | finished => trivial

/-- Each task keeps to its ends of the channels. -/
theorem owns (t : Task 0) (library : TemplateLibrary) (s : job.network.State t) :
    Network.Owns t (job.network.move t library s).1 := by
  cases t with
  | lexer => exact lex_within s
  | parser => exact parse_within s
  | fan => exact job.keep_within library s
  | evaluator k | assembler k => exact k.elim0

def weight : (t : Task 0) → State t → Nat
  | .lexer, s => @Job.weight 0 .lexer s
  | .parser, s => @Job.weight 0 .parser s
  | .fan, .reading => 1
  | .fan, .storing _ => 2
  | .fan, .finished => 0
  | .evaluator k, _ | .assembler k, _ => k.elim0

theorem keep_lessens (library : TemplateLibrary) (s : Keeping) :
    Network.Lessens (weight .fan) (@Job.cost 0) (weight .fan s) (job.keep library s).1 := by
  cases s with
  | finished => trivial
  | reading =>
    refine ⟨fun node => ?_, Nat.one_pos⟩
    simp only [weight, Job.cost]
    omega
  | storing node => exact Nat.lt_succ_self 1

def effort : job.network.Effort where
  weight := weight
  cost := Job.cost
  less
    | .lexer, _, s => Job.lex_lessens s
    | .parser, _, s => Job.parse_lessens s
    | .fan, library, s => job.keep_lessens library s
    | .evaluator k, _, _ | .assembler k, _, _ => k.elim0

end TemplateJob
end PageTemplate
