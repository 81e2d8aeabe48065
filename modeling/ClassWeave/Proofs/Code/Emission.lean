import ClassWeave.Code.Bytecode
import ClassWeave.Proofs.Typing.Reachability

/-!
# What a body is emitted as

The instructions that each item of a body stands for in bytecode. Items that can be reached keep
their instructions, with operands in the pool and offsets for labels; a jump that is widened becomes
a long one. Items that cannot be reached do nothing, and the last one of a run throws.
-/

namespace ClassWeave

/-- The same branch, with targets that correspond. -/
inductive Branch.Retargets {τ σ : Type} (leads : τ → σ → Prop) : Branch τ → Branch σ → Prop where
  | jumpIf {test : Test} {source : τ} {target : σ} (lead : leads source target) :
      Retargets leads (.jumpIf test source) (.jumpIf test target)
  | goto {source : τ} {target : σ} (lead : leads source target) :
      Retargets leads (.goto source) (.goto target)
  | tableSwitch {source : τ} {target : σ} {low : Int32} {sources : List τ} {targets : List σ}
      (default : leads source target) (table : List.Forall₂ leads sources targets) :
      Retargets leads (.tableSwitch source low sources) (.tableSwitch target low targets)
  | lookupSwitch {source : τ} {target : σ} {sources : List (Int32 × τ)}
      {targets : List (Int32 × σ)} (default : leads source target)
      (cases : List.Forall₂ (fun a b => a.1 = b.1 ∧ leads a.2 b.2) sources targets) :
      Retargets leads (.lookupSwitch source sources) (.lookupSwitch target targets)
  | ret {kind : ReturnKind} : Retargets leads (.ret kind) (.ret kind)
  | athrow : Retargets leads .athrow .athrow

namespace Branch

variable {τ σ : Type} {leads : τ → σ → Prop} {jump : Branch τ} {placed : Branch σ}

theorem Retargets.of_mapM {ε : Type} {change : τ → Except ε σ}
    (done : jump.mapM change = .ok placed) :
    jump.Retargets (fun source target => change source = .ok target) placed := by
  cases jump with
  | jumpIf test source =>
    obtain ⟨target, found, rfl⟩ := Outcome.map_ok.mp done
    exact .jumpIf found
  | goto source =>
    obtain ⟨target, found, rfl⟩ := Outcome.map_ok.mp done
    exact .goto found
  | tableSwitch source low sources =>
    obtain ⟨target, found, later⟩ := Outcome.bind_ok.mp done
    obtain ⟨targets, tableFound, same⟩ := Outcome.bind_ok.mp later
    cases Outcome.pure_ok.mp same
    exact .tableSwitch found (Outcome.mapM_ok.mp tableFound)
  | lookupSwitch source sources =>
    obtain ⟨target, found, later⟩ := Outcome.bind_ok.mp done
    obtain ⟨targets, casesFound, same⟩ := Outcome.bind_ok.mp later
    cases Outcome.pure_ok.mp same
    refine .lookupSwitch found ((Outcome.mapM_ok.mp casesFound).imp fun a b caseFound => ?_)
    obtain ⟨value, valueFound, same⟩ := Outcome.bind_ok.mp caseFound
    cases Outcome.pure_ok.mp same
    exact ⟨rfl, valueFound⟩
  | ret kind =>
    cases done
    exact .ret
  | athrow =>
    cases done
    exact .athrow

/-- Targets that are changed back give the branch that there was. -/
theorem Retargets.mapM_back {ε : Type} {back : σ → Except ε τ}
    (retargets : jump.Retargets (fun source target => back target = .ok source) placed) :
    placed.mapM back = .ok jump := by
  cases retargets with
  | jumpIf lead | goto lead => exact Outcome.map_ok.mpr ⟨_, lead, rfl⟩
  | tableSwitch default table =>
    exact Outcome.bind_ok.mpr ⟨_, default, Outcome.bind_ok.mpr
      ⟨_, Outcome.mapM_ok.mpr table.flip, rfl⟩⟩
  | lookupSwitch default cases =>
    refine Outcome.bind_ok.mpr ⟨_, default, Outcome.bind_ok.mpr
      ⟨_, Outcome.mapM_ok.mpr (cases.flip.imp ?_), rfl⟩⟩
    rintro ⟨key, target⟩ ⟨_, source⟩ ⟨rfl, lead⟩
    exact Outcome.bind_ok.mpr ⟨source, lead, rfl⟩
  | ret | athrow => rfl

private theorem forall₂_imp_of_mem {α β : Type} {r s : α → β → Prop} {as : List α} {bs : List β}
    (each : List.Forall₂ r as bs) (weaker : ∀ a ∈ as, ∀ b, r a b → s a b) :
    List.Forall₂ s as bs := by
  induction each with
  | nil => exact .nil
  | cons first _ ih =>
    exact .cons (weaker _ List.mem_cons_self _ first)
      (ih fun a member => weaker a (List.mem_cons_of_mem _ member))

theorem Retargets.imp_of_mem {further : τ → σ → Prop} (retargets : jump.Retargets leads placed)
    (weaker : ∀ source ∈ jump.targets, ∀ target, leads source target → further source target) :
    jump.Retargets further placed := by
  cases retargets with
  | jumpIf lead => exact .jumpIf (weaker _ List.mem_cons_self _ lead)
  | goto lead => exact .goto (weaker _ List.mem_cons_self _ lead)
  | tableSwitch default table =>
    exact .tableSwitch (weaker _ List.mem_cons_self _ default) (forall₂_imp_of_mem table
      fun source member => weaker source (List.mem_cons_of_mem _ member))
  | lookupSwitch default cases =>
    exact .lookupSwitch (weaker _ List.mem_cons_self _ default) (forall₂_imp_of_mem cases
      fun case member target lead => ⟨lead.1, weaker _ (List.mem_cons_of_mem _
        (List.mem_map_of_mem member)) _ lead.2⟩)
  | ret => exact .ret
  | athrow => exact .athrow

theorem Retargets.targets (retargets : jump.Retargets leads placed) :
    List.Forall₂ leads jump.targets placed.targets := by
  cases retargets with
  | jumpIf lead | goto lead => exact .cons lead .nil
  | tableSwitch default table => exact .cons default table
  | lookupSwitch default cases =>
    refine .cons default ?_
    rw [List.forall₂_map_left_iff, List.forall₂_map_right_iff]
    exact cases.imp fun _ _ both => both.2
  | ret | athrow => exact .nil

/-- Changing targets does not change widths. -/
theorem Retargets.widthAt (retargets : jump.Retargets leads placed) (offset : Nat)
    (widened : Bool) : placed.widthAt offset widened = jump.widthAt offset widened := by
  cases retargets with
  | tableSwitch _ table => simp [Branch.widthAt, table.length_eq]
  | lookupSwitch _ cases => simp [Branch.widthAt, cases.length_eq]
  | _ => rfl

theorem Retargets.fallsThrough (retargets : jump.Retargets leads placed) :
    placed.fallsThrough = jump.fallsThrough := by
  cases retargets <;> rfl

end Branch

namespace Body

variable {body : Body} {starts : Nat → Nat}

/-- The label is followed by an instruction at this offset. -/
def LeadsTo (body : Body) (starts : Nat → Nat) (label : Label) (offset : Nat) : Prop :=
  ∃ position code, body.LabelAt label position ∧ body.FirstCode position code ∧
    starts code = offset

/-- No more code comes before the next item that can be reached. -/
def EndsRun (body : Body) (position : Nat) : Prop :=
  ∀ later, position < later → body.IsCodeAt later →
    ∃ between, position < between ∧ between ≤ later ∧ body.Reachable between

/-- Control does not go on from a position, whether its item is emitted as it is or as dead code. -/
structure Stops (body : Body) (position : Nat) : Prop where
  live : ∀ item, body.Reachable position → body.items[position]? = some item →
    FlowGraph.fallsThrough item = false
  dead : ¬ body.Reachable position → body.EndsRun position

/-- The instructions that the item at a position is emitted as. `starts` has the offsets of items,
`widened` the jumps that are widened. Operands are added to the pool. -/
inductive Emits (body : Body) (starts : Nat → Nat) (widened : Nat → Bool) (position : Nat) :
    Item → Pool → List (Nat × RawInstruction) → Pool → Prop where
  | mark {item : Item} {pool : Pool} (mark : item.isCode = false)
      (next : starts (position + 1) = starts position) :
      Emits body starts widened position item pool [] pool
  | instruction {step : SymInstruction} {lowered : PoolInstruction} {before after : Pool}
      (live : body.Reachable position)
      (done : PoolM.Yields (step.mapM PoolM.operand) before lowered after)
      (next : starts (position + 1) = starts position + lowered.encode.length) :
      Emits body starts widened position (.instruction step) before
        [(starts position, .straight lowered)] after
  | branch {jump : Branch Label} {placed : Branch Nat} {pool : Pool}
      (live : body.Reachable position) (narrow : widened position = false)
      (retargets : jump.Retargets (body.LeadsTo starts) placed)
      (next : starts (position + 1) = starts position + placed.widthAt (starts position) false) :
      Emits body starts widened position (.branch jump) pool
        [(starts position, .branch placed)] pool
  | wideGoto {label : Label} {target : Nat} {pool : Pool} (live : body.Reachable position)
      (wide : widened position = true) (leads : body.LeadsTo starts label target)
      (next : starts (position + 1) = starts position + 5) :
      Emits body starts widened position (.branch (.goto label)) pool
        [(starts position, .branch (.goto target))] pool
  | wideJumpIf {test : Test} {label : Label} {target : Nat} {pool : Pool}
      (live : body.Reachable position) (wide : widened position = true)
      (leads : body.LeadsTo starts label target)
      (next : starts (position + 1) = starts position + 8) :
      Emits body starts widened position (.branch (.jumpIf test label)) pool
        [(starts position, .branch (.jumpIf test.negate (starts position + 8))),
          (starts position + 3, .branch (.goto target))] pool
  | deadInside {item : Item} {pool : Pool} (isCode : item.isCode = true)
      (dead : ¬ body.Reachable position) (inside : ¬ body.EndsRun position)
      (next : starts (position + 1) = starts position + 1) :
      Emits body starts widened position item pool [(starts position, .straight (.plain .nop))] pool
  | deadLast {item : Item} {pool : Pool} (isCode : item.isCode = true)
      (dead : ¬ body.Reachable position) (last : body.EndsRun position)
      (next : starts (position + 1) = starts position + 1) :
      Emits body starts widened position item pool [(starts position, .branch .athrow)] pool

/-- The instructions that the items from a position on are emitted as, one after the other. -/
inductive EmitsFrom (body : Body) (starts : Nat → Nat) (widened : Nat → Bool) :
    (position : Nat) → List Item → Pool → List (Nat × RawInstruction) → Pool → Prop where
  | nil {position : Nat} {pool : Pool} : EmitsFrom body starts widened position [] pool [] pool
  | cons {position : Nat} {item : Item} {rest : List Item}
      {emitted others : List (Nat × RawInstruction)} {before middle after : Pool}
      (first : body.Emits starts widened position item before emitted middle)
      (later : EmitsFrom body starts widened (position + 1) rest middle others after) :
      EmitsFrom body starts widened position (item :: rest) before (emitted ++ others) after

/-- Items that are executed take some bytes, the others none. -/
structure Laid (body : Body) (starts : Nat → Nat) : Prop where
  mark {position : Nat} {item : Item} : body.items[position]? = some item →
    item.isCode = false → starts (position + 1) = starts position
  code {position : Nat} {item : Item} : body.items[position]? = some item →
    item.isCode = true → starts position < starts (position + 1)

namespace Laid

variable (laid : body.Laid starts)

include laid

theorem code_lt_next {position : Nat} (isCode : body.IsCodeAt position) :
    starts position < starts (position + 1) := by
  obtain ⟨item, found, executed⟩ := isCode
  exact laid.code found executed

theorem le_next {position : Nat} (inside : position < body.items.length) :
    starts position ≤ starts (position + 1) := by
  have found : body.items[position]? = some body.items[position] := List.getElem?_eq_getElem inside
  cases isCode : body.items[position].isCode with
  | true => exact (laid.code found isCode).le
  | false => exact (laid.mark found isCode).ge

theorem mono {first second : Nat} (ordered : first ≤ second)
    (inside : second ≤ body.items.length) : starts first ≤ starts second := by
  induction ordered with
  | refl => exact Nat.le_refl _
  | step ordered ih => exact (ih (Nat.le_of_succ_le inside)).trans (laid.le_next inside)

/-- What comes after an item that is executed starts past it. -/
theorem lt_of_code {first second : Nat} (isCode : body.IsCodeAt first) (before : first < second)
    (inside : second ≤ body.items.length) : starts first < starts second :=
  (laid.code_lt_next isCode).trans_le (laid.mono before inside)

/-- Different instructions have different offsets. -/
theorem code_unique {first second : Nat} (firstCode : body.IsCodeAt first)
    (secondCode : body.IsCodeAt second) (same : starts first = starts second) : first = second := by
  rcases Nat.lt_trichotomy first second with before | equal | after
  · have apart := laid.lt_of_code firstCode before secondCode.inside.le
    omega
  · exact equal
  · have apart := laid.lt_of_code secondCode after firstCode.inside.le
    omega

/-- What is not executed takes no bytes before the code that follows it. -/
theorem starts_firstCode {position code : Nat} (first : body.FirstCode position code) :
    starts code = starts position := by
  have inside := first.isCode.inside
  obtain ⟨ahead, -, skipped⟩ := first
  induction ahead with
  | refl => rfl
  | @step place ahead ih =>
    have within : place < body.items.length := (Nat.lt_succ_self place).trans inside
    have mark : body.items[place].isCode = false := by
      by_contra isCode
      exact skipped ahead (Nat.lt_succ_self place)
        ⟨_, List.getElem?_eq_getElem within, by simpa using isCode⟩
    rw [laid.mark (List.getElem?_eq_getElem within) mark]
    exact ih within fun past before => skipped past (before.trans (Nat.lt_succ_self _))

/-- Every offset belongs to an instruction. -/
theorem exists_holding {offset limit : Nat} (upTo : limit ≤ body.items.length)
    (above : starts 0 ≤ offset) (below : offset < starts limit) :
    ∃ position, body.IsCodeAt position ∧ starts position ≤ offset ∧
      offset < starts (position + 1) := by
  induction limit with
  | zero => exact absurd below (Nat.not_lt.mpr above)
  | succ place ih =>
    by_cases earlier : offset < starts place
    · exact ih (Nat.le_of_succ_le upTo) earlier
    · have found : body.items[place]? = some body.items[place] := List.getElem?_eq_getElem upTo
      cases isCode : body.items[place].isCode with
      | true => exact ⟨place, ⟨_, found, isCode⟩, Nat.le_of_not_lt earlier, below⟩
      | false =>
        rw [laid.mark found isCode] at below
        exact absurd below earlier

/-- A run of dead code ends exactly if the byte after it is not dead. -/
theorem endsRun_iff (closed : body.Closed) {dead : List Nat}
    (bytes : ∀ offset, offset ∈ dead ↔
      ∃ position, body.IsCodeAt position ∧ ¬ body.Reachable position ∧ starts position = offset)
    {position : Nat} (isCode : body.IsCodeAt position)
    (next : starts (position + 1) = starts position + 1) :
    body.EndsRun position ↔ starts position + 1 ∉ dead := by
  rw [bytes, ← next]
  constructor
  · rintro ends ⟨later, laterCode, unreachable, same⟩
    have ahead : position < later := by
      by_contra behind
      have early := laid.mono (Nat.le_of_not_lt behind) isCode.inside.le
      omega
    obtain ⟨between, after, before, path⟩ := ends later ahead laterCode
    obtain ⟨code, first, reachable⟩ := closed.firstCode path
    have upTo : code ≤ later := by
      by_contra past
      exact first.skipped before (Nat.lt_of_not_le past) laterCode
    have other : code ≠ later := by
      rintro rfl
      exact unreachable reachable
    have apart := laid.lt_of_code first.isCode (Nat.lt_of_le_of_ne upTo other) laterCode.inside.le
    have early : starts (position + 1) ≤ starts code :=
      laid.mono (after.trans_le first.ahead) first.isCode.inside.le
    omega
  · intro alone later ahead laterCode
    obtain ⟨code, first, upTo⟩ := exists_firstCode ahead laterCode
    by_contra unreachable
    refine alone ⟨code, first.isCode, fun path => ?_, laid.starts_firstCode first⟩
    exact unreachable ⟨code, first.ahead, upTo, path⟩

end Laid

/-- An instruction that can be reached starts at this offset. -/
def StartsLive (body : Body) (starts : Nat → Nat) (offset : Nat) : Prop :=
  ∃ code, body.IsCodeAt code ∧ body.Reachable code ∧ starts code = offset

theorem StartsLive.inside {offset : Nat} (live : body.StartsLive starts offset)
    (laid : body.Laid starts) : offset < starts body.items.length := by
  obtain ⟨code, isCode, -, rfl⟩ := live
  exact laid.lt_of_code isCode isCode.inside (Nat.le_refl _)

/-- Where a path leads, an instruction that can be reached starts. -/
theorem Reachable.startsLive {position : Nat} (path : body.Reachable position)
    (closed : body.Closed) (laid : body.Laid starts) : body.StartsLive starts (starts position) := by
  obtain ⟨code, first, reachable⟩ := closed.firstCode path
  exact ⟨code, first.isCode, reachable, laid.starts_firstCode first⟩

/-- Jumps that can be reached lead to instructions that can be reached. -/
theorem LeadsTo.startsLive {label : Label} {offset : Nat} (leads : body.LeadsTo starts label offset)
    (closed : body.Closed) {position : Nat} {jump : Branch Label} (path : body.Reachable position)
    (found : body.items[position]? = some (.branch jump)) (member : label ∈ jump.targets) :
    body.StartsLive starts offset := by
  obtain ⟨target, code, placed, first, same⟩ := leads
  obtain ⟨other, otherFirst, reachable⟩ :=
    closed.firstCode (path.step (.successor (.jump found member placed)))
  cases first.unique otherFirst
  exact ⟨code, first.isCode, reachable, same⟩

/-- The instructions that are emitted go where the item leaps to. Only a long conditional jump has
one that goes to the next item. -/
theorem Emits.target_cases {widened : Nat → Bool} (laid : body.Laid starts) {position : Nat}
    {item : Item} {before after : Pool} {emitted : List (Nat × RawInstruction)}
    (found : body.items[position]? = some item)
    (emits : body.Emits starts widened position item before emitted after)
    {entry : Nat × RawInstruction} (member : entry ∈ emitted) {target : Nat}
    (isTarget : target ∈ entry.2.targets) : body.Reachable position ∧
      ((∃ place, body.Leap position place ∧ starts place = target) ∨
        ∃ jump, item = .branch jump ∧ jump.fallsThrough = true ∧ widened position = true ∧
          starts (position + 1) = starts position + 8 ∧ starts (position + 1) = target) := by
  have leap {jump : Branch Label} {label : Label} {offset : Nat} (isJump : item = .branch jump)
      (isLabel : label ∈ jump.targets) (leads : body.LeadsTo starts label offset) :
      ∃ place, body.Leap position place ∧ starts place = offset := by
    obtain ⟨place, code, placed, first, rfl⟩ := leads
    exact ⟨place, .jump (isJump ▸ found) isLabel placed, (laid.starts_firstCode first).symm⟩
  cases emits with
  | mark => cases member
  | instruction | deadInside | deadLast =>
    cases List.mem_singleton.mp member
    cases isTarget
  | branch live _ retargets =>
    cases List.mem_singleton.mp member
    obtain ⟨label, isLabel, leads⟩ := Outcome.exists_left_of_mem retargets.targets isTarget
    exact ⟨live, .inl (leap rfl isLabel leads)⟩
  | wideGoto live _ leads =>
    cases List.mem_singleton.mp member
    cases List.mem_singleton.mp isTarget
    exact ⟨live, .inl (leap rfl List.mem_cons_self leads)⟩
  | wideJumpIf live wide leads next =>
    rcases List.mem_pair.mp member with rfl | rfl
    · cases List.mem_singleton.mp isTarget
      exact ⟨live, .inr ⟨_, rfl, rfl, wide, next, next⟩⟩
    · cases List.mem_singleton.mp isTarget
      exact ⟨live, .inl (leap rfl List.mem_cons_self leads)⟩

/-- The instructions that are emitted only go where instructions that can be reached start. -/
theorem Emits.targets {widened : Nat → Bool} (closed : body.Closed) (laid : body.Laid starts)
    {position : Nat} {item : Item} {before after : Pool} {emitted : List (Nat × RawInstruction)}
    (found : body.items[position]? = some item)
    (emits : body.Emits starts widened position item before emitted after)
    {entry : Nat × RawInstruction} (member : entry ∈ emitted) {target : Nat}
    (isTarget : target ∈ entry.2.targets) : body.StartsLive starts target := by
  obtain ⟨live, ⟨place, leap, rfl⟩ | ⟨jump, rfl, falls, -, -, rfl⟩⟩ :=
    emits.target_cases laid found member isTarget
  · exact (live.step leap.edge).startsLive closed laid
  · exact (live.next found falls).startsLive closed laid

/-- What is left of a list starts with the element at its position. -/
theorem drop_cons {α : Type} {values rest : List α} {value : α} {position : Nat}
    (suffix : values.drop position = value :: rest) :
    values[position]? = some value ∧ values.drop (position + 1) = rest := by
  rw [← List.drop_drop, suffix, ← List.head?_drop, suffix]
  exact ⟨rfl, rfl⟩

/-- Every instruction comes from an item. -/
theorem EmitsFrom.origin {widened : Nat → Bool} {position : Nat} {rest : List Item}
    {before after : Pool} {listing : List (Nat × RawInstruction)}
    (emitsFrom : body.EmitsFrom starts widened position rest before listing after)
    (suffix : body.items.drop position = rest) {entry : Nat × RawInstruction}
    (member : entry ∈ listing) : ∃ place item earlier later emitted,
      body.items[place]? = some item ∧
        body.Emits starts widened place item earlier emitted later ∧ entry ∈ emitted := by
  induction emitsFrom with
  | nil => cases member
  | cons first _ ih =>
    obtain ⟨found, suffix⟩ := drop_cons suffix
    rcases List.mem_append.mp member with here | later
    · exact ⟨_, _, _, _, _, found, first, here⟩
    · exact ih suffix later

end Body

end ClassWeave
