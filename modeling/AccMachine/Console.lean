/-
**Consoles.**

A console takes the outputs of machines and hands out lines of input.  It may refuse either, and
a machine is told so.  Anything with these two services is a console; machines cannot tell one
from another except by the answers.

Main definitions:

* `Console` — the two services.
-/

import AccMachine.Fault
import AccMachine.Output

set_option relaxedAutoImplicit false
set_option autoImplicit false

namespace AccMachine

/-- What takes outputs and hands out lines of input; there may be no line left. -/
class Console (κ : Type) where
  /-- Takes an output, or refuses it. -/
  emit : κ → Output → Except DeviceFault Unit × κ
  /-- Hands out the next line, or refuses to. -/
  read : κ → Except DeviceFault (Option String) × κ

end AccMachine
