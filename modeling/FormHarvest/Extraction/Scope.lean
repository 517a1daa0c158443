import FormHarvest.Message.Basic

namespace FormHarvest

/-- A text that was read, before its domain is known. -/
structure Entry where
  id : String
  place : Place
  desc : Option String := none
  meaning : Option String := none
  translations : Translations := []
deriving DecidableEq

/-- The message that an entry is in a domain. -/
def Entry.inDomain (entry : Entry) (domain : Option String) : Message where
  id := entry.id
  domain
  places := [entry.place]
  desc := entry.desc
  meaning := entry.meaning
  translations := entry.translations

/-- What is known of a class or of the file around all classes: the default domain and the entries
that wait for it. -/
structure Scope where
  defaultDomain : Option String := none
  pending : List Entry := []
deriving DecidableEq

/-- The messages of a scope that is complete: its entries under its default domain. -/
def Scope.messages (scope : Scope) : List Message :=
  scope.pending.map (·.inDomain scope.defaultDomain)

/-- The scopes around a node: the file and the classes inside each other, the innermost first. -/
structure ScopeStack where
  file : Scope := {}
  classes : List Scope := []
deriving DecidableEq

namespace ScopeStack

def depth (stack : ScopeStack) : Nat := stack.classes.length

/-- The innermost scope. -/
def current (stack : ScopeStack) : Scope := stack.classes.head?.getD stack.file

/-- The stack with the innermost scope changed. -/
def update (stack : ScopeStack) (change : Scope → Scope) : ScopeStack :=
  match stack.classes with
  | [] => { stack with file := change stack.file }
  | scope :: rest => { stack with classes := change scope :: rest }

/-- Opens the scope of a class. -/
def enter (stack : ScopeStack) : ScopeStack := { stack with classes := {} :: stack.classes }

/-- Closes the scope of the innermost class; outside of all classes nothing can be closed. -/
def leave? (stack : ScopeStack) : Option (Scope × ScopeStack) :=
  match stack.classes with
  | [] => none
  | scope :: rest => some (scope, { stack with classes := rest })

/-- Lets an entry wait for the default domain of the innermost scope. -/
def defer (stack : ScopeStack) (entry : Entry) : ScopeStack :=
  stack.update fun scope => { scope with pending := scope.pending ++ [entry] }

/-- Sets the default domain of the innermost scope. -/
def setDomain (stack : ScopeStack) (domain : String) : ScopeStack :=
  stack.update fun scope => { scope with defaultDomain := some domain }

@[simp] theorem leave?_enter (stack : ScopeStack) : stack.enter.leave? = some ({}, stack) := rfl

@[simp] theorem current_update (stack : ScopeStack) (change : Scope → Scope) :
    (stack.update change).current = change stack.current := by
  unfold update current
  split <;> simp_all

@[simp] theorem depth_update (stack : ScopeStack) (change : Scope → Scope) :
    (stack.update change).depth = stack.depth := by
  unfold update depth
  split <;> simp_all

end ScopeStack

/-- What is said when a class is left that was never entered. -/
def unmatchedLeave : String := "on_leave_class() without matching on_enter_class()"

end FormHarvest
