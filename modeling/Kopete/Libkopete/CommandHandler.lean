import Kopete.Lib.QMap
import Mathlib

/-!
# libkopete — the commands of a chat

A message that begins with a slash is a command if the protocol, a plugin or Kopete itself
has registered its name. Each owner has a table of its own, under lower-case names; what can
be used in a chat is put together from these, the more important ones first, and an entry is
never replaced. The name in a message and the name that is unregistered are taken as they are.

Main results:

* `Table.apply`, `table_run` — what is in the tables, over every run;
* `head?_commands_spec` — which command is used, of those in the tables;
* `processMessage_iff` — the runs and the names for which it is the right one.
-/

namespace Kopete

inductive CommandType where
  | normal
  | systemAlias
  | userAlias
  | undefined
deriving DecidableEq, Repr

abbrev CommandText := List Char

/-- `Command`: what it is used by, and what it does. -/
structure Command where
  parent : Nat
  command : CommandText
  /-- Of an alias there is none. -/
  handlerSlot : Option String
  formatString : CommandText
  type : CommandType
deriving DecidableEq, Repr

/-- A protocol is a plugin, too, but it does not count as one here. -/
inductive OwnerKind where
  | protocol
  | plugin
  | other
deriving DecidableEq, Repr

/-- The letters, and the objects there are, by their addresses. -/
structure CommandWorld where
  isSpace : Char → Bool
  toLower : CommandText → CommandText
  toLower_toLower : ∀ s, toLower (toLower s) = toLower s
  kind : Nat → OwnerKind
  /-- The command handler. -/
  self : Nat
  kind_self : kind self = .other

/-- `CommandList`, a `QMultiHash`: what is under each name, the last one first. -/
abbrev CommandList := CommandText → List Command

/-- `CommandHandlerPrivate`. -/
structure CommandHandler where
  pluginCommands : QMap Nat CommandList
  inCommand : Bool

inductive CommandOp where
  | registerCommand (parent : Nat) (command : CommandText) (handlerSlot : String)
  | registerAlias (parent : Nat) (aliasName formatString : CommandText) (type : CommandType)
  | unregisterCommand (parent : Nat) (command : CommandText)
  | unregisterAlias (parent : Nat) (aliasName : CommandText)
deriving DecidableEq, Repr

namespace CommandHandler

variable (w : CommandWorld)

/-- `p->pluginCommands[ parent ]`. -/
def commandsOf (h : CommandHandler) (parent : Nat) : CommandList :=
  (h.pluginCommands.find? parent).getD fun _ => []

def insertCommand (h : CommandHandler) (c : Command) : CommandHandler :=
  let list := h.commandsOf c.parent
  { h with pluginCommands :=
      h.pluginCommands.insert c.parent (Function.update list c.command (c :: list c.command)) }

/-- `CommandHandler::registerCommand`. -/
def registerCommand (h : CommandHandler) (parent : Nat) (command : CommandText)
    (handlerSlot : String) : CommandHandler :=
  h.insertCommand ⟨parent, w.toLower command, some handlerSlot, [], .normal⟩

/-- `CommandHandler::registerAlias`. -/
def registerAlias (h : CommandHandler) (parent : Nat) (aliasName formatString : CommandText)
    (type : CommandType) : CommandHandler :=
  h.insertCommand ⟨parent, w.toLower aliasName, none, formatString, type⟩

/-- `CommandHandler::unregisterCommand`, which takes all that is under the name. -/
def unregisterCommand (h : CommandHandler) (parent : Nat) (command : CommandText) :
    CommandHandler :=
  let list := h.commandsOf parent
  let rest := if (list command).isEmpty then list else Function.update list command []
  { h with pluginCommands := h.pluginCommands.insert parent rest }

/-- `CommandHandler::unregisterAlias`, which does the same. -/
def unregisterAlias (h : CommandHandler) (parent : Nat) (aliasName : CommandText) :
    CommandHandler :=
  h.unregisterCommand parent aliasName

def apply (h : CommandHandler) : CommandOp → CommandHandler
  | .registerCommand parent command handlerSlot => h.registerCommand w parent command handlerSlot
  | .registerAlias parent aliasName formatString type =>
    h.registerAlias w parent aliasName formatString type
  | .unregisterCommand parent command => h.unregisterCommand parent command
  | .unregisterAlias parent aliasName => h.unregisterAlias parent aliasName

/-- The commands that the constructor registers. -/
def internalCommands : List CommandOp :=
  [("help", "slotHelpCommand"), ("url", "slotOpenLastUrl"), ("close", "slotCloseCommand"),
    ("part", "slotPartCommand"), ("clear", "slotClearCommand"), ("away", "slotAwayCommand"),
    ("awayall", "slotAwayAllCommand"), ("say", "slotSayCommand"), ("exec", "slotExecCommand")].map
    fun (name, slot) => .registerCommand w.self name.toList slot

/-- The tables before the first command. -/
def start : CommandHandler where
  pluginCommands := QMap.empty.insert w.self fun _ => []
  inCommand := false

/-- The constructor, and then these calls. -/
def run (ops : List CommandOp) : CommandHandler :=
  (internalCommands w ++ ops).foldl (apply w) (start w)

/-- `CommandHandler::addCommands`: of what there is under a name, the first one of the type, unless
there is one already. -/
def addCommands (list into : CommandList) (type : CommandType) : CommandList := fun name =>
  match into name with
  | [] => ((list name).find? fun c => type = .undefined ∨ c.type = type).toList
  | c :: cs => c :: cs

/-- `CommandHandler::commands`. -/
def commands (h : CommandHandler) (protocol : Nat) : CommandList :=
  let into := addCommands (h.commandsOf protocol) (fun _ => []) .userAlias
  let into := addCommands (h.commandsOf protocol) into .systemAlias
  let into := addCommands (h.commandsOf protocol) into .undefined
  let into := h.pluginCommands.entries.foldl
    (fun into e => if w.kind e.1 = .plugin then addCommands e.2 into .undefined else into) into
  let into := addCommands (h.commandsOf w.self) into .userAlias
  let into := addCommands (h.commandsOf w.self) into .systemAlias
  addCommands (h.commandsOf w.self) into .undefined

/-- The name and the arguments, as `^/([\S]+)(.*)` finds them. -/
def splitMessage (msg : CommandText) : Option (CommandText × CommandText) :=
  match msg with
  | '/' :: rest =>
    let command := rest.takeWhile fun c => !w.isSpace c
    if command.isEmpty then none
    else some (command, (rest.dropWhile fun c => !w.isSpace c).drop 1)
  | _ => none

/-- `CommandHandler::processMessage`: the command that is used, with its arguments, if any is. -/
def processMessage (h : CommandHandler) (msg : CommandText) (protocol : Nat) :
    Option (Command × CommandText) :=
  if h.inCommand then none
  else
    match splitMessage w msg with
    | none => none
    | some (command, args) => ((commands w h protocol command).head?).map fun c => (c, args)

/-! ## What is registered -/

/-- The command that a call makes. -/
def registers : CommandOp → Option Command
  | .registerCommand parent command handlerSlot =>
    some ⟨parent, w.toLower command, some handlerSlot, [], .normal⟩
  | .registerAlias parent aliasName formatString type =>
    some ⟨parent, w.toLower aliasName, none, formatString, type⟩
  | .unregisterCommand _ _ | .unregisterAlias _ _ => none

/-- The owner and the name that a call unregisters. -/
def unregisters : CommandOp → Option (Nat × CommandText)
  | .registerCommand _ _ _ | .registerAlias _ _ _ _ => none
  | .unregisterCommand parent name | .unregisterAlias parent name => some (parent, name)

/-- The command has been registered and not been unregistered since, where `same` says which
names are those of the command. -/
def Remains (same : CommandText → CommandText → Prop) (ops : List CommandOp) (c : Command) : Prop :=
  ∃ before op after, ops = before ++ op :: after ∧ registers w op = some c ∧
    ∀ op' ∈ after, ∀ name, unregisters op' = some (c.parent, name) → ¬ same name c.command

/-- It has not been unregistered since, in whatever case the name has been written. -/
def Live : List CommandOp → Command → Prop := Remains w fun name key => w.toLower name = key

/-- It has not been unregistered since under its lower-case name. -/
def Kept : List CommandOp → Command → Prop := Remains w fun name key => name = key

variable {w}

/-- What one call does. -/
theorem apply_cases (h : CommandHandler) (op : CommandOp) :
    (∃ c, registers w op = some c ∧ unregisters op = none ∧ h.apply w op = h.insertCommand c) ∨
      ∃ parent name, registers w op = none ∧ unregisters op = some (parent, name) ∧
        h.apply w op = h.unregisterCommand parent name := by
  cases op with
  | registerCommand parent command handlerSlot => exact .inl ⟨_, rfl, rfl, rfl⟩
  | registerAlias parent aliasName formatString type => exact .inl ⟨_, rfl, rfl, rfl⟩
  | unregisterCommand parent command => exact .inr ⟨parent, command, rfl, rfl, rfl⟩
  | unregisterAlias parent aliasName => exact .inr ⟨parent, aliasName, rfl, rfl, rfl⟩

theorem toLower_of_registers {op : CommandOp} {c : Command} (h : registers w op = some c) :
    w.toLower c.command = c.command := by
  cases op with
  | registerCommand parent command handlerSlot =>
    cases h
    exact w.toLower_toLower command
  | registerAlias parent aliasName formatString type =>
    cases h
    exact w.toLower_toLower aliasName
  | unregisterCommand parent command => cases h
  | unregisterAlias parent aliasName => cases h

theorem Remains.toLower {same : CommandText → CommandText → Prop} {ops : List CommandOp}
    {c : Command} (h : Remains w same ops c) : w.toLower c.command = c.command := by
  obtain ⟨before, op, after, -, hOp, -⟩ := h
  exact toLower_of_registers hOp

theorem not_remains_nil {same : CommandText → CommandText → Prop} {c : Command} :
    ¬ Remains w same [] c := by
  rintro ⟨before, op, after, hNil, -⟩
  exact absurd hNil.symm (List.append_ne_nil_of_right_ne_nil _ (List.cons_ne_nil _ _))

/-- One more call. -/
theorem remains_append {same : CommandText → CommandText → Prop} {ops : List CommandOp}
    {op : CommandOp} {c : Command} :
    Remains w same (ops ++ [op]) c ↔
      registers w op = some c ∨
        Remains w same ops c ∧
          ∀ name, unregisters op = some (c.parent, name) → ¬ same name c.command := by
  constructor
  · rintro ⟨before, op', after, hSplit, hOp, hSince⟩
    rcases List.eq_nil_or_concat after with rfl | ⟨after, last, rfl⟩
    · obtain ⟨-, hLast⟩ := List.append_inj' hSplit rfl
      cases hLast
      exact .inl hOp
    · rw [List.concat_eq_append, ← List.cons_append, ← List.append_assoc] at hSplit
      obtain ⟨hOps, hLast⟩ := List.append_inj' hSplit rfl
      cases hLast
      rw [List.concat_eq_append] at hSince
      refine .inr ⟨⟨before, op', after, hOps, hOp, fun op'' hMem => ?_⟩, ?_⟩
      · exact hSince op'' (List.mem_append_left _ hMem)
      · exact hSince op (List.mem_append_right _ (List.mem_singleton_self op))
  · rintro (hOp | ⟨⟨before, op', after, rfl, hOp, hSince⟩, hLast⟩)
    · exact ⟨ops, op, [], rfl, hOp, fun op' hMem => absurd hMem List.not_mem_nil⟩
    · refine ⟨before, op', after ++ [op], ?_, hOp, fun op'' hMem => ?_⟩
      · rw [List.append_assoc, List.cons_append]
      · rcases List.mem_append.1 hMem with hMem | hMem
        · exact hSince op'' hMem
        · rw [List.mem_singleton.1 hMem]
          exact hLast

theorem Live.kept {ops : List CommandOp} {c : Command} (h : Live w ops c) : Kept w ops c := by
  have hLower := Remains.toLower h
  obtain ⟨before, op, after, hSplit, hOp, hSince⟩ := h
  refine ⟨before, op, after, hSplit, hOp, fun op' hMem name hName hSame => ?_⟩
  subst hSame
  exact hSince op' hMem _ hName hLower

/-! ## The tables -/

theorem commandsOf_insertCommand (h : CommandHandler) (c : Command) (owner : Nat)
    (key : CommandText) :
    (h.insertCommand c).commandsOf owner key =
      if owner = c.parent ∧ key = c.command then c :: h.commandsOf owner key
      else h.commandsOf owner key := by
  rw [insertCommand, commandsOf]
  dsimp only
  rw [QMap.find?_insert]
  by_cases hOwner : owner = c.parent
  · subst hOwner
    rw [if_pos rfl, Option.getD_some]
    by_cases hKey : key = c.command
    · subst hKey
      rw [Function.update_self, if_pos ⟨rfl, rfl⟩]
    · rw [Function.update_of_ne hKey, if_neg fun hBoth => hKey hBoth.2]
  · rw [if_neg hOwner, if_neg fun hBoth => hOwner hBoth.1]
    rfl

theorem commandsOf_unregisterCommand (h : CommandHandler) (parent : Nat) (name : CommandText)
    (owner : Nat) (key : CommandText) :
    (h.unregisterCommand parent name).commandsOf owner key =
      if owner = parent ∧ key = name then [] else h.commandsOf owner key := by
  rw [unregisterCommand, commandsOf]
  dsimp only
  rw [QMap.find?_insert]
  by_cases hOwner : owner = parent
  · subst hOwner
    rw [if_pos rfl, Option.getD_some]
    by_cases hKey : key = name
    · subst hKey
      rw [if_pos (show owner = owner ∧ key = key from ⟨rfl, rfl⟩)]
      split
      · next hEmpty => exact List.isEmpty_iff.1 hEmpty
      · rw [Function.update_self]
    · rw [if_neg (show ¬ (owner = owner ∧ key = name) from fun hBoth => hKey hBoth.2)]
      split
      · rfl
      · rw [Function.update_of_ne hKey]
  · rw [if_neg hOwner, if_neg fun hBoth => hOwner hBoth.1]
    rfl

variable (w) in
/-- The tables hold what has not been unregistered as it is written there; what has been
unregistered in another spelling is behind the rest. -/
def Table (ops : List CommandOp) (h : CommandHandler) : Prop :=
  ∀ owner key, ∃ live stale, h.commandsOf owner key = live ++ stale ∧
    (∀ c, c ∈ live ↔ Live w ops c ∧ c.parent = owner ∧ c.command = key) ∧
    ∀ c, c ∈ live ++ stale ↔ Kept w ops c ∧ c.parent = owner ∧ c.command = key

theorem Table.start : Table w [] (start w) := by
  intro owner key
  have hEmpty : (CommandHandler.start w).commandsOf owner key = [] := by
    rw [CommandHandler.start, commandsOf]
    dsimp only
    rw [QMap.find?_insert]
    split
    · rfl
    · rw [QMap.find?_empty]
      rfl
  have hNone {same : CommandText → CommandText → Prop} (c : Command) :
      c ∈ [] ↔ Remains w same [] c ∧ c.parent = owner ∧ c.command = key :=
    ⟨fun hMem => absurd hMem List.not_mem_nil, fun h => absurd h.1 not_remains_nil⟩
  exact ⟨[], [], hEmpty, hNone, hNone⟩

theorem Table.insertCommand {ops : List CommandOp} {h : CommandHandler} {op : CommandOp}
    {new : Command} (hTable : Table w ops h) (hNew : registers w op = some new)
    (hOp : unregisters op = none) : Table w (ops ++ [op]) (h.insertCommand new) := by
  intro owner key
  obtain ⟨live, stale, hList, hLive, hKept⟩ := hTable owner key
  have hStep {same : CommandText → CommandText → Prop} (c : Command) :
      Remains w same (ops ++ [op]) c ↔ c = new ∨ Remains w same ops c := by
    rw [remains_append, hNew, hOp]
    simp only [Option.some.injEq, reduceCtorEq, false_implies, implies_true, and_true,
      eq_comm (a := new)]
  rw [commandsOf_insertCommand]
  by_cases hHere : owner = new.parent ∧ key = new.command
  · obtain ⟨rfl, rfl⟩ := hHere
    rw [if_pos ⟨rfl, rfl⟩, hList]
    refine ⟨new :: live, stale, rfl, fun c => ?_, fun c => ?_⟩
    · rw [List.mem_cons, hLive, Live, hStep]
      exact ⟨fun h => h.elim (fun hNew => ⟨.inl hNew, hNew ▸ rfl, hNew ▸ rfl⟩)
        fun h => ⟨.inr h.1, h.2⟩, fun h => h.1.imp_right fun hOld => ⟨hOld, h.2⟩⟩
    · rw [List.cons_append, List.mem_cons, hKept, Kept, hStep]
      exact ⟨fun h => h.elim (fun hNew => ⟨.inl hNew, hNew ▸ rfl, hNew ▸ rfl⟩)
        fun h => ⟨.inr h.1, h.2⟩, fun h => h.1.imp_right fun hOld => ⟨hOld, h.2⟩⟩
  · rw [if_neg hHere]
    have hOther {same : CommandText → CommandText → Prop} (c : Command) :
        Remains w same ops c ∧ c.parent = owner ∧ c.command = key ↔
          Remains w same (ops ++ [op]) c ∧ c.parent = owner ∧ c.command = key := by
      rw [hStep]
      refine ⟨fun h => ⟨.inr h.1, h.2⟩, fun h => ⟨h.1.resolve_left ?_, h.2⟩⟩
      rintro rfl
      exact hHere ⟨h.2.1.symm, h.2.2.symm⟩
    exact ⟨live, stale, hList, fun c => (hLive c).trans (hOther c),
      fun c => (hKept c).trans (hOther c)⟩

theorem Table.unregisterCommand {ops : List CommandOp} {h : CommandHandler} {op : CommandOp}
    {parent : Nat} {name : CommandText} (hTable : Table w ops h)
    (hNew : registers w op = none) (hOp : unregisters op = some (parent, name)) :
    Table w (ops ++ [op]) (h.unregisterCommand parent name) := by
  intro owner key
  obtain ⟨live, stale, hList, hLive, hKept⟩ := hTable owner key
  have hStep {same : CommandText → CommandText → Prop} (c : Command) :
      Remains w same (ops ++ [op]) c ↔
        Remains w same ops c ∧ ¬ (parent = c.parent ∧ same name c.command) := by
    rw [remains_append, hNew, hOp]
    simp only [reduceCtorEq, false_or, Option.some.injEq, Prod.mk.injEq, and_imp, not_and]
    exact and_congr_right fun _ => ⟨fun h hParent => h name hParent rfl,
      fun h name' hParent hName => hName ▸ h hParent⟩
  have hNone {same : CommandText → CommandText → Prop}
      (hGone : ∀ c, Remains w same ops c → c.command = key → parent = owner ∧ same name key)
      (c : Command) :
      c ∈ [] ↔ Remains w same (ops ++ [op]) c ∧ c.parent = owner ∧ c.command = key := by
    rw [hStep]
    refine ⟨fun hMem => absurd hMem List.not_mem_nil, ?_⟩
    rintro ⟨⟨hOld, hNot⟩, rfl, rfl⟩
    exact absurd (hGone c hOld rfl) hNot
  have hOther {same : CommandText → CommandText → Prop} (hNot : ¬ (parent = owner ∧ same name key))
      (c : Command) : Remains w same ops c ∧ c.parent = owner ∧ c.command = key ↔
        Remains w same (ops ++ [op]) c ∧ c.parent = owner ∧ c.command = key := by
    rw [hStep]
    refine ⟨fun h => ⟨⟨h.1, ?_⟩, h.2⟩, fun h => ⟨h.1.1, h.2⟩⟩
    rw [h.2.1, h.2.2]
    exact hNot
  rw [commandsOf_unregisterCommand]
  by_cases hHere : owner = parent ∧ key = name
  · obtain ⟨rfl, rfl⟩ := hHere
    rw [if_pos ⟨rfl, rfl⟩]
    refine ⟨[], [], rfl, hNone fun c hOld hSame => ⟨rfl, ?_⟩, hNone fun c _ _ => ⟨rfl, rfl⟩⟩
    rw [← hSame]
    exact hOld.toLower
  · rw [if_neg hHere]
    have hKept' (c : Command) := (hKept c).trans
      (hOther (fun hBoth => hHere ⟨hBoth.1.symm, hBoth.2.symm⟩) c)
    by_cases hLower : parent = owner ∧ w.toLower name = key
    · -- another spelling: nothing is taken from the table
      exact ⟨[], live ++ stale, hList, hNone fun c _ _ => hLower, hKept'⟩
    · exact ⟨live, stale, hList, fun c => (hLive c).trans (hOther hLower c), hKept'⟩

theorem Table.apply {ops : List CommandOp} {h : CommandHandler} (hTable : Table w ops h)
    (op : CommandOp) : Table w (ops ++ [op]) (h.apply w op) := by
  rcases apply_cases h op with ⟨c, hNew, hOp, hStep⟩ | ⟨parent, name, hNew, hOp, hStep⟩
  · rw [hStep]
    exact hTable.insertCommand hNew hOp
  · rw [hStep]
    exact hTable.unregisterCommand hNew hOp

/-- **What the tables hold**, after every run. -/
theorem table_run (ops : List CommandOp) : Table w (internalCommands w ++ ops) (run w ops) := by
  rw [run]
  induction internalCommands w ++ ops using List.reverseRecOn with
  | nil => exact Table.start
  | append_singleton ops op ih =>
    rw [List.foldl_append, List.foldl_cons, List.foldl_nil]
    exact ih.apply op

theorem inCommand_run (ops : List CommandOp) : (run w ops).inCommand = false := by
  rw [run]
  induction internalCommands w ++ ops using List.reverseRecOn with
  | nil => rfl
  | append_singleton ops op ih =>
    rw [List.foldl_append, List.foldl_cons, List.foldl_nil]
    rcases apply_cases ((ops.foldl (CommandHandler.apply w) (start w))) op with
      ⟨c, -, -, hStep⟩ | ⟨parent, name, -, -, hStep⟩
    · rw [hStep]
      exact ih
    · rw [hStep]
      exact ih

/-! ## The order of the owners -/

/-- User aliases first, then system aliases, then commands. -/
def kindRank (c : Command) : Nat :=
  match c.type with
  | .userAlias => 0
  | .systemAlias => 1
  | .normal | .undefined => 2

/-- The command that three merges of one table leave under a name. -/
def pick (cs : List Command) : Option Command :=
  (cs.find? fun c => c.type = .userAlias).or
    ((cs.find? fun c => c.type = .systemAlias).or cs.head?)

theorem pick_eq_none {cs : List Command} : pick cs = none ↔ cs = [] := by
  rw [pick, Option.or_eq_none_iff, Option.or_eq_none_iff, List.head?_eq_none_iff]
  refine ⟨fun h => h.2.2, ?_⟩
  rintro rfl
  exact ⟨rfl, rfl, rfl⟩

/-- It is the first one of the best kind. -/
theorem pick_spec {cs : List Command} {u : Command} (h : pick cs = some u) :
    cs.find? (fun c => kindRank c = kindRank u) = some u ∧ ∀ c ∈ cs, kindRank u ≤ kindRank c := by
  have hUser (c : Command) : c.type = .userAlias ↔ kindRank c = 0 := by
    cases hType : c.type <;> simp [kindRank, hType]
  have hSystem (c : Command) : c.type = .systemAlias ↔ kindRank c = 1 := by
    cases hType : c.type <;> simp [kindRank, hType]
  have hLe (c : Command) : kindRank c ≤ 2 := by
    cases hType : c.type <;> simp [kindRank, hType]
  simp only [pick, hUser, hSystem] at h
  cases hFirst : cs.find? fun c => kindRank c = 0 with
  | some v =>
    rw [hFirst, Option.some_or] at h
    cases h
    have hu : kindRank u = 0 := by
      simpa only [decide_eq_true_eq] using List.find?_some hFirst
    rw [hu]
    exact ⟨hFirst, fun c _ => Nat.zero_le _⟩
  | none =>
    rw [hFirst, Option.none_or] at h
    have hNoUser : ∀ c ∈ cs, kindRank c ≠ 0 := fun c hc hZero =>
      List.find?_eq_none.1 hFirst c hc (decide_eq_true hZero)
    cases hSecond : cs.find? fun c => kindRank c = 1 with
    | some v =>
      rw [hSecond, Option.some_or] at h
      cases h
      have hu : kindRank u = 1 := by
        simpa only [decide_eq_true_eq] using List.find?_some hSecond
      rw [hu]
      exact ⟨hSecond, fun c hc => Nat.pos_of_ne_zero (hNoUser c hc)⟩
    | none =>
      rw [hSecond, Option.none_or] at h
      have hTwo : ∀ c ∈ cs, kindRank c = 2 := by
        intro c hc
        have hOne : kindRank c ≠ 1 := fun hOne =>
          List.find?_eq_none.1 hSecond c hc (decide_eq_true hOne)
        have hZero := hNoUser c hc
        have hBound := hLe c
        omega
      obtain ⟨cs, rfl⟩ := List.head?_eq_some_iff.1 h
      refine ⟨List.find?_cons_of_pos (decide_eq_true rfl), fun c hc => ?_⟩
      rw [hTwo u List.mem_cons_self, hTwo c hc]

theorem head?_addCommands (list into : CommandList) (type : CommandType) (name : CommandText) :
    (addCommands list into type name).head? =
      (into name).head?.or ((list name).find? fun c => type = .undefined ∨ c.type = type) := by
  rw [addCommands]
  cases into name with
  | nil =>
    rw [List.head?_nil, Option.none_or]
    cases (list name).find? fun c => type = .undefined ∨ c.type = type with
    | none => rfl
    | some c => rfl
  | cons c cs => rfl

theorem find?_undefined (cs : List Command) :
    (cs.find? fun c => CommandType.undefined = .undefined ∨ c.type = .undefined) = cs.head? := by
  cases cs with
  | nil => rfl
  | cons c cs => exact List.find?_cons_of_pos (decide_eq_true (.inl rfl))

/-- Three merges of one table. -/
theorem head?_addCommands_three (list into : CommandList) (name : CommandText) :
    (addCommands list (addCommands list (addCommands list into .userAlias) .systemAlias)
      .undefined name).head? = (into name).head?.or (pick (list name)) := by
  rw [head?_addCommands, head?_addCommands, head?_addCommands, find?_undefined, pick,
    Option.or_assoc, Option.or_assoc]
  simp only [reduceCtorEq, false_or]

theorem head?_addCommands_plugins (entries : List (Nat × CommandList)) (into : CommandList)
    (name : CommandText) :
    ((entries.foldl (fun into e => if w.kind e.1 = .plugin then addCommands e.2 into .undefined
      else into) into) name).head? =
      (into name).head?.or (entries.findSome? fun e =>
        if w.kind e.1 = .plugin then (e.2 name).head? else none) := by
  induction entries generalizing into with
  | nil => rw [List.foldl_nil, List.findSome?_nil, Option.or_none]
  | cons e entries ih =>
    rw [List.foldl_cons, ih, List.findSome?_cons]
    split
    · rw [head?_addCommands, find?_undefined, Option.or_assoc]
      cases (e.2 name).head? with
      | none => rw [Option.none_or]
      | some c => rfl
    · rfl

theorem head?_commands (h : CommandHandler) (protocol : Nat) (name : CommandText) :
    (commands w h protocol name).head? =
      (pick (h.commandsOf protocol name)).or
        ((h.pluginCommands.entries.findSome? fun e =>
          if w.kind e.1 = .plugin then (e.2 name).head? else none).or
          (pick (h.commandsOf w.self name))) := by
  rw [commands, head?_addCommands_three, head?_addCommands_plugins, head?_addCommands_three,
    List.head?_nil, Option.none_or, Option.or_assoc]

/-! ## Which command is used -/

variable (w) in
/-- The owners whose commands can be used in a chat of the protocol. -/
def Relevant (protocol : Nat) (c : Command) : Prop :=
  c.parent = protocol ∨ w.kind c.parent = .plugin ∨ c.parent = w.self

variable (w) in
/-- The place in the order: user aliases, system aliases and commands of the protocol, commands of
the plugins, by their addresses, user aliases, system aliases and commands of Kopete. -/
def place (protocol : Nat) (c : Command) : Nat ×ₗ Nat :=
  if c.parent = protocol then toLex (kindRank c, 0)
  else if w.kind c.parent = .plugin then toLex (3, c.parent)
  else toLex (4 + kindRank c, 0)

theorem kindRank_le (c : Command) : kindRank c ≤ 2 := by
  cases hType : c.type <;> simp [kindRank, hType]

/-- A command is the first one in the tables that can be used under a name, and live if one in the
same place is. -/
structure Best (w : CommandWorld) (ops : List CommandOp) (protocol : Nat) (key : CommandText)
    (u : Command) : Prop where
  kept : Kept w ops u
  named : u.command = key
  relevant : Relevant w protocol u
  first : ∀ c, Kept w ops c → c.command = key → Relevant w protocol c →
    place w protocol u ≤ place w protocol c
  live : ∀ c, Live w ops c → c.command = key → Relevant w protocol c →
    place w protocol c = place w protocol u → Live w ops u

/-- What is live is found before what is stale. -/
theorem Table.live_of_find? {ops : List CommandOp} {h : CommandHandler} (hTable : Table w ops h)
    {owner : Nat} {key : CommandText} {p : Command → Bool} {u : Command}
    (hFind : (h.commandsOf owner key).find? p = some u) {c : Command} (hc : Live w ops c)
    (hOwner : c.parent = owner) (hKey : c.command = key) (hp : p c = true) : Live w ops u := by
  obtain ⟨live, stale, hList, hLive, -⟩ := hTable owner key
  rw [hList, List.find?_append] at hFind
  cases hFirst : live.find? p with
  | some v =>
    rw [hFirst, Option.some_or] at hFind
    cases hFind
    exact ((hLive u).1 (List.mem_of_find?_eq_some hFirst)).1
  | none =>
    exact absurd hp (List.find?_eq_none.1 hFirst c ((hLive c).2 ⟨hc, hOwner, hKey⟩))

theorem Table.mem_commandsOf {ops : List CommandOp} {h : CommandHandler} (hTable : Table w ops h)
    {owner : Nat} {key : CommandText} {c : Command} :
    c ∈ h.commandsOf owner key ↔ Kept w ops c ∧ c.parent = owner ∧ c.command = key := by
  obtain ⟨live, stale, hList, -, hKept⟩ := hTable owner key
  rw [hList]
  exact hKept c

/-- What is in a table is in an entry of the owner. -/
theorem Table.exists_entry {ops : List CommandOp} {h : CommandHandler} (hTable : Table w ops h)
    {c : Command} (hc : Kept w ops c) :
    ∃ list, h.pluginCommands.find? c.parent = some list ∧ c ∈ list c.command := by
  have hMem := hTable.mem_commandsOf.2 ⟨hc, rfl, rfl⟩
  rw [commandsOf] at hMem
  cases hFound : h.pluginCommands.find? c.parent with
  | none =>
    rw [hFound] at hMem
    exact absurd hMem List.not_mem_nil
  | some list =>
    rw [hFound, Option.getD_some] at hMem
    exact ⟨list, rfl, hMem⟩

theorem best_of_protocol {ops : List CommandOp} {h : CommandHandler} (hTable : Table w ops h)
    {protocol : Nat} {key : CommandText} {u : Command}
    (hPick : pick (h.commandsOf protocol key) = some u) : Best w ops protocol key u := by
  obtain ⟨hFind, hBest⟩ := pick_spec hPick
  obtain ⟨hKept, hParent, hKey⟩ := hTable.mem_commandsOf.1 (List.mem_of_find?_eq_some hFind)
  have hPlace : place w protocol u = toLex (kindRank u, 0) := if_pos hParent
  have hu := kindRank_le u
  refine ⟨hKept, hKey, .inl hParent, fun c hc hcKey hRelevant => ?_, fun c hc hcKey _ hSame => ?_⟩
  · rw [hPlace, place, Prod.Lex.le_iff]
    split
    · next hProtocol =>
      have hLe := hBest c (hTable.mem_commandsOf.2 ⟨hc, hProtocol, hcKey⟩)
      simp only [ofLex_toLex]
      omega
    · split
      · simp only [ofLex_toLex]
        omega
      · simp only [ofLex_toLex]
        omega
  · rw [hPlace, place] at hSame
    split at hSame
    · next hProtocol =>
      have hRank : kindRank c = kindRank u := (Prod.mk.inj (toLex.injective hSame)).1
      exact hTable.live_of_find? hFind hc hProtocol hcKey (decide_eq_true hRank)
    · split at hSame
      · have hRank := (Prod.mk.inj (toLex.injective hSame)).1
        omega
      · have hRank := (Prod.mk.inj (toLex.injective hSame)).1
        omega

theorem best_of_plugin {ops : List CommandOp} {h : CommandHandler} (hTable : Table w ops h)
    {protocol : Nat} {key : CommandText} {u : Command}
    (hOwn : h.commandsOf protocol key = [])
    (hSome : h.pluginCommands.entries.findSome? (fun e =>
      if w.kind e.1 = .plugin then (e.2 key).head? else none) = some u) :
    Best w ops protocol key u := by
  obtain ⟨owner, list, hEntry, hHead, hLeast⟩ := QMap.exists_of_findSome? hSome
  have hPlugin : w.kind owner = .plugin := by
    by_contra hNot
    rw [if_neg hNot] at hHead
    cases hHead
  rw [if_pos hPlugin] at hHead
  have hList : h.commandsOf owner = list := by rw [commandsOf, hEntry, Option.getD_some]
  have hFind : (h.commandsOf owner key).find? (fun _ => true) = some u := by
    obtain ⟨cs, (hcs : list key = u :: cs)⟩ := List.head?_eq_some_iff.1 hHead
    rw [hList, hcs]
    exact List.find?_cons_of_pos rfl
  obtain ⟨hKept, rfl, hKey⟩ := hTable.mem_commandsOf.1 (List.mem_of_find?_eq_some hFind)
  have hOther {c : Command} (hc : Kept w ops c) (hcKey : c.command = key) :
      c.parent ≠ protocol := fun hSame =>
    List.ne_nil_of_mem (hTable.mem_commandsOf.2 ⟨hc, hSame, hcKey⟩) hOwn
  have hPlace : place w protocol u = toLex (3, u.parent) := by
    rw [place, if_neg (hOther hKept hKey), if_pos hPlugin]
  refine ⟨hKept, hKey, .inr (.inl hPlugin), fun c hc hcKey hRelevant => ?_,
    fun c hc hcKey _ hSame => ?_⟩
  · rw [hPlace, place, if_neg (hOther hc hcKey), Prod.Lex.le_iff]
    split
    · next hcPlugin =>
      -- an owner with an entry for the name is not before the first one that has any
      obtain ⟨list', hFound, hMem⟩ := hTable.exists_entry hc
      refine .inr ⟨rfl, hLeast c.parent list' hFound ?_⟩
      rw [if_pos hcPlugin, ← hcKey]
      exact fun hNil => List.ne_nil_of_mem hMem (List.head?_eq_none_iff.1 hNil)
    · simp only [ofLex_toLex]
      omega
  · rw [hPlace, place, if_neg (hOther hc.kept hcKey)] at hSame
    split at hSame
    · have hParent : c.parent = u.parent := (Prod.mk.inj (toLex.injective hSame)).2
      exact hTable.live_of_find? hFind hc hParent hcKey rfl
    · have hRank := (Prod.mk.inj (toLex.injective hSame)).1
      omega

theorem best_of_self {ops : List CommandOp} {h : CommandHandler} (hTable : Table w ops h)
    {protocol : Nat} {key : CommandText} {u : Command}
    (hProtocol : w.kind protocol = .protocol)
    (hBefore : ∀ c, Kept w ops c → c.command = key → Relevant w protocol c → c.parent = w.self)
    (hPick : pick (h.commandsOf w.self key) = some u) : Best w ops protocol key u := by
  obtain ⟨hFind, hBest⟩ := pick_spec hPick
  obtain ⟨hKept, hParent, hKey⟩ := hTable.mem_commandsOf.1 (List.mem_of_find?_eq_some hFind)
  have hPlace {c : Command} (hSelf : c.parent = w.self) :
      place w protocol c = toLex (4 + kindRank c, 0) := by
    have hNot : c.parent ≠ protocol := by
      rintro hSame
      rw [← hSame, hSelf, w.kind_self] at hProtocol
      cases hProtocol
    have hNotPlugin : w.kind c.parent ≠ .plugin := by
      rw [hSelf, w.kind_self]
      decide
    rw [place, if_neg hNot, if_neg hNotPlugin]
  refine ⟨hKept, hKey, .inr (.inr hParent), fun c hc hcKey hRelevant => ?_,
    fun c hc hcKey hRelevant hSame => ?_⟩
  · have hSelf := hBefore c hc hcKey hRelevant
    have hLe := hBest c (hTable.mem_commandsOf.2 ⟨hc, hSelf, hcKey⟩)
    rw [hPlace hParent, hPlace hSelf, Prod.Lex.le_iff]
    simp only [ofLex_toLex]
    omega
  · have hSelf := hBefore c hc.kept hcKey hRelevant
    rw [hPlace hParent, hPlace hSelf] at hSame
    have hRank := (Prod.mk.inj (toLex.injective hSame)).1
    exact hTable.live_of_find? hFind hc hSelf hcKey (decide_eq_true (by omega))

/-- **The command that is used**, of those in the tables. -/
theorem head?_commands_spec {ops : List CommandOp} {h : CommandHandler} (hTable : Table w ops h)
    {protocol : Nat} (hProtocol : w.kind protocol = .protocol) (key : CommandText) :
    match (commands w h protocol key).head? with
    | some u => Best w ops protocol key u
    | none => ∀ c, Kept w ops c → c.command = key → ¬ Relevant w protocol c := by
  rw [head?_commands]
  cases hOwn : pick (h.commandsOf protocol key) with
  | some u => exact best_of_protocol hTable hOwn
  | none =>
    have hNil := pick_eq_none.1 hOwn
    have hNotOwn {c : Command} (hc : Kept w ops c) (hcKey : c.command = key) :
        c.parent ≠ protocol := fun hSame =>
      List.ne_nil_of_mem (hTable.mem_commandsOf.2 ⟨hc, hSame, hcKey⟩) hNil
    rw [Option.none_or]
    cases hPlugins : h.pluginCommands.entries.findSome? fun e =>
        if w.kind e.1 = .plugin then (e.2 key).head? else none with
    | some u => exact best_of_plugin hTable hNil hPlugins
    | none =>
      have hBefore : ∀ c, Kept w ops c → c.command = key → Relevant w protocol c →
          c.parent = w.self := by
        rintro c hc hcKey (hSame | hPlugin | hSelf)
        · exact absurd hSame (hNotOwn hc hcKey)
        · obtain ⟨list, hFound, hMem⟩ := hTable.exists_entry hc
          have hNone := List.findSome?_eq_none_iff.1 hPlugins _ (QMap.mem_entries_iff.2 hFound)
          rw [if_pos hPlugin, List.head?_eq_none_iff, ← hcKey] at hNone
          exact absurd hNone (List.ne_nil_of_mem hMem)
        · exact hSelf
      rw [Option.none_or]
      cases hSelf : pick (h.commandsOf w.self key) with
      | some u => exact best_of_self hTable hProtocol hBefore hSelf
      | none =>
        intro c hc hcKey hRelevant
        have hMem := hTable.mem_commandsOf.2 ⟨hc, hBefore c hc hcKey hRelevant, hcKey⟩
        exact List.ne_nil_of_mem hMem (pick_eq_none.1 hSelf)

/-! ## Messages -/

variable (w) in
/-- A command that the name stands for in a chat of the protocol, whatever its case. -/
def Usable (ops : List CommandOp) (protocol : Nat) (name : CommandText) (c : Command) : Prop :=
  Live w (internalCommands w ++ ops) c ∧ c.command = w.toLower name ∧ Relevant w protocol c

/-- What is asked of a message: it is handled if there is a command for it, and the command is one
of the first kind there is, of seven. -/
structure HandledRight (w : CommandWorld) (ops : List CommandOp) (protocol : Nat)
    (name args : CommandText) : Prop where
  handled : (processMessage w (run w ops) ('/' :: (name ++ args)) protocol).isSome = true ↔
    ∃ c, Usable w ops protocol name c
  first : ∀ u args', processMessage w (run w ops) ('/' :: (name ++ args)) protocol =
      some (u, args') →
    Usable w ops protocol name u ∧ ∀ c, Usable w ops protocol name c →
      (ofLex (place w protocol u)).1 ≤ (ofLex (place w protocol c)).1

variable (w) in
/-- The condition. A name in lower case: what has been unregistered in another spelling only comes
after something that is still registered. Another name: there is nothing to use. -/
def Spelled (ops : List CommandOp) (protocol : Nat) (name : CommandText) : Prop :=
  if w.toLower name = name then
    ∀ s, Kept w (internalCommands w ++ ops) s → s.command = name → Relevant w protocol s →
      ¬ Live w (internalCommands w ++ ops) s →
        ∃ c, Usable w ops protocol name c ∧ place w protocol c ≤ place w protocol s
  else ∀ c, ¬ Usable w ops protocol name c

theorem splitMessage_eq {name args : CommandText} (hName : name ≠ [])
    (hWord : ∀ c ∈ name, w.isSpace c = false) (hArgs : ∀ c ∈ args.head?, w.isSpace c = true) :
    splitMessage w ('/' :: (name ++ args)) = some (name, args.drop 1) := by
  have hTake : args.takeWhile (fun c => !w.isSpace c) = [] ∧
      args.dropWhile (fun c => !w.isSpace c) = args := by
    cases args with
    | nil => exact ⟨rfl, rfl⟩
    | cons c args =>
      have hSpace := hArgs c (by rw [List.head?_cons]; rfl)
      rw [List.takeWhile_cons, List.dropWhile_cons, hSpace]
      exact ⟨rfl, rfl⟩
  have hAll : ∀ c ∈ name, (!w.isSpace c) = true := fun c hc => by rw [hWord c hc]; rfl
  rw [splitMessage, List.takeWhile_append_of_pos hAll, List.dropWhile_append_of_pos hAll, hTake.1, hTake.2,
    List.append_nil, if_neg fun hEmpty => hName (List.isEmpty_iff.1 hEmpty)]

theorem processMessage_run (ops : List CommandOp) (protocol : Nat) {name args : CommandText}
    (hName : name ≠ []) (hWord : ∀ c ∈ name, w.isSpace c = false)
    (hArgs : ∀ c ∈ args.head?, w.isSpace c = true) :
    processMessage w (run w ops) ('/' :: (name ++ args)) protocol =
      (commands w (run w ops) protocol name).head?.map fun c => (c, args.drop 1) := by
  rw [processMessage, inCommand_run, if_neg Bool.false_ne_true,
    splitMessage_eq hName hWord hArgs]

/-- In the tables there are lower-case names only. -/
theorem head?_commands_of_not_lower (ops : List CommandOp) {protocol : Nat}
    (hProtocol : w.kind protocol = .protocol) {name : CommandText}
    (hName : w.toLower name ≠ name) :
    (commands w (run w ops) protocol name).head? = none := by
  have hSpec := head?_commands_spec (table_run ops) hProtocol name
  cases hUsed : (commands w (run w ops) protocol name).head? with
  | none => rfl
  | some u =>
    rw [hUsed] at hSpec
    have hLower := hSpec.kept.toLower
    rw [hSpec.named] at hLower
    exact absurd hLower hName

/-- A message that is not handled. -/
theorem handledRight_iff_of_none {ops : List CommandOp} {protocol : Nat} {name args : CommandText}
    (h : processMessage w (run w ops) ('/' :: (name ++ args)) protocol = none) :
    HandledRight w ops protocol name args ↔ ∀ c, ¬ Usable w ops protocol name c := by
  constructor
  · intro hRight c hc
    have hSome := hRight.handled.2 ⟨c, hc⟩
    rw [h] at hSome
    cases hSome
  · intro hNone
    refine ⟨?_, ?_⟩
    · rw [h]
      exact iff_of_false Bool.false_ne_true fun ⟨c, hc⟩ => hNone c hc
    · rw [h]
      rintro u args' hSome
      cases hSome

/-- **When the right command is used.** -/
theorem processMessage_iff (ops : List CommandOp) {protocol : Nat}
    (hProtocol : w.kind protocol = .protocol) {name args : CommandText} (hName : name ≠ [])
    (hWord : ∀ c ∈ name, w.isSpace c = false) (hArgs : ∀ c ∈ args.head?, w.isSpace c = true) :
    HandledRight w ops protocol name args ↔ Spelled w ops protocol name := by
  have hRun := processMessage_run (w := w) ops protocol hName hWord hArgs
  rw [Spelled]
  split
  · next hLower =>
    have hSpec := head?_commands_spec (table_run ops) hProtocol name
    cases hUsed : (commands w (run w ops) protocol name).head? with
    | none =>
      rw [hUsed] at hRun hSpec
      refine iff_of_true ((handledRight_iff_of_none hRun).2 fun c hc => ?_)
        fun s hs hsName hRelevant _ => absurd hRelevant (hSpec s hs hsName)
      exact hSpec c hc.1.kept (hc.2.1.trans hLower) hc.2.2
    | some u =>
      rw [hUsed] at hRun hSpec
      constructor
      · intro hRight s hs hsName hRelevant _
        exact ⟨u, (hRight.first u _ hRun).1, hSpec.first s hs hsName hRelevant⟩
      · intro hSpelled
        have hLive : Live w (internalCommands w ++ ops) u := by
          by_contra hStale
          obtain ⟨c, hc, hLe⟩ := hSpelled u hSpec.kept hSpec.named hSpec.relevant hStale
          have hcName := hc.2.1.trans hLower
          have hGe := hSpec.first c hc.1.kept hcName hc.2.2
          exact hStale (hSpec.live c hc.1 hcName hc.2.2 (le_antisymm hLe hGe))
        have hUsable : Usable w ops protocol name u :=
          ⟨hLive, hSpec.named.trans hLower.symm, hSpec.relevant⟩
        refine ⟨?_, fun u' args' hSome => ?_⟩
        · rw [hRun]
          exact iff_of_true rfl ⟨u, hUsable⟩
        · rw [hRun] at hSome
          cases hSome
          refine ⟨hUsable, fun c hc => ?_⟩
          exact Prod.Lex.monotone_fst _ _
            (hSpec.first c hc.1.kept (hc.2.1.trans hLower) hc.2.2)
  · next hOther =>
    rw [head?_commands_of_not_lower ops hProtocol hOther] at hRun
    exact handledRight_iff_of_none hRun

/-- Where nothing is unregistered, all that is in the tables is live. -/
theorem Kept.live {ops : List CommandOp} (h : ∀ op ∈ ops, unregisters op = none) {c : Command}
    (hc : Kept w ops c) : Live w ops c := by
  obtain ⟨before, op, after, rfl, hOp, -⟩ := hc
  refine ⟨before, op, after, rfl, hOp, fun op' hMem name hName => ?_⟩
  rw [h op' (List.mem_append_right _ (List.mem_cons_of_mem _ hMem))] at hName
  cases hName

theorem unregisters_internalCommands (w : CommandWorld) :
    ∀ op ∈ internalCommands w, unregisters op = none := by
  intro op hMem
  obtain ⟨entry, -, rfl⟩ := List.mem_map.1 hMem
  rfl

theorem toLower_toLower (c : Char) : c.toLower.toLower = c.toLower := by
  unfold Char.toLower
  split
  · next hUpper =>
    split
    · next hAgain =>
      have hLow : 65 ≤ c.val.toNat := UInt32.le_iff_toNat_le.1 hUpper.1
      have hHigh : c.val.toNat ≤ 90 := UInt32.le_iff_toNat_le.1 hUpper.2
      have hSum : (c.val + 32).toNat ≤ 90 := UInt32.le_iff_toNat_le.1 hAgain.2
      rw [UInt32.toNat_add, show (32 : UInt32).toNat = 32 from rfl] at hSum
      omega
    · rfl
  · rfl

/-- Letters as in ASCII, and one protocol. -/
def ascii : CommandWorld where
  isSpace := Char.isWhitespace
  toLower := List.map Char.toLower
  toLower_toLower s := by
    rw [List.map_map]
    exact List.map_congr_left fun c _ => toLower_toLower c
  kind p := if p = 1 then .protocol else .other
  self := 0
  kind_self := rfl

theorem word_of_all {name : CommandText} (h : (name.all fun c => !w.isSpace c) = true) :
    ∀ c ∈ name, w.isSpace c = false := by
  intro c hc
  simpa using List.all_eq_true.1 h c hc

theorem processMessage_iff_help : HandledRight ascii [] 1 ['h', 'e', 'l', 'p'] [] := by
  refine (processMessage_iff [] (by decide) (by decide) (word_of_all (by decide))
    fun c hc => by cases hc).2 ?_
  rw [Spelled, if_pos (by decide)]
  intro s hs _ _ hStale
  refine absurd (hs.live fun op hMem => ?_) hStale
  rw [List.append_nil] at hMem
  exact unregisters_internalCommands ascii op hMem

theorem processMessage_upper : ¬ HandledRight ascii [] 1 ['H', 'e', 'l', 'p'] [] := by
  rintro ⟨hHandled, -⟩
  rw [processMessage_run [] 1 (by decide) (word_of_all (by decide)) (fun c hc => by cases hc),
    head?_commands_of_not_lower [] (by decide) (by decide)] at hHandled
  have hLive : Live ascii (internalCommands ascii ++ [])
      ⟨0, ['h', 'e', 'l', 'p'], some "slotHelpCommand", [], .normal⟩ := by
    rw [List.append_nil]
    refine ⟨[], _, _, rfl, by decide, fun op hMem name hName => ?_⟩
    rw [unregisters_internalCommands ascii op (List.mem_cons_of_mem _ hMem)] at hName
    cases hName
  have hSome := hHandled.2 ⟨_, hLive, by decide, .inr (.inr rfl)⟩
  cases hSome

end CommandHandler

end Kopete
