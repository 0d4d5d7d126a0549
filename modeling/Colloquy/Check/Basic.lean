import Colloquy.Check.Rule

/-! # Checking a document

The findings of the rules, at most as many as asked for, without repetitions and in order.
-/

namespace Colloquy.Check

/-- The first findings up to a limit, which is none when it is not positive, then without repetitions and
    in order. -/
def collect (limit : Int) (found : List Diagnostic) : List Diagnostic :=
  ((Bag.empty limit).extend found).finish

def document (limit : Int) (s : Subject) : List Diagnostic := collect limit (Rule.structural s)

def models (limit : Int) (registry : Registry) (s : Subject) : List Diagnostic :=
  collect limit (Rule.models registry s)

/-- The providers whose model lists the header needs, each once, in order. -/
def modelProviders (s : Subject) : List Bytes :=
  let spec := s.spec
  (((s.header.interlocutors.filter fun it => it.declared.model).map (Rule.providerOf spec)).filter
    fun p => !p.isEmpty).eraseDups

end Colloquy.Check
