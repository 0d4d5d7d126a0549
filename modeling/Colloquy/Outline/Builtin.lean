import Colloquy.Text.Bytes

/-! # Built-in directives

The directives that every document understands, with the text that explains each of them.
-/

namespace Colloquy.Builtin

def docs : List (String × String) := [
  ("ask", "`:ask[Name]` switches the conversation to interlocutor *Name* for the rest of the document."),
  ("aside", "`:aside[Name]` lets interlocutor *Name* answer the current message only, then returns to the previous speaker."),
  ("cmd", "`:cmd[command]` runs a shell command and inserts its output into the message."),
  ("reset", "`:reset[]` clears the conversation context; earlier messages are not sent to the model."),
  ("macro", "`:macro[name]` expands the named macro in place."),
  ("merge_yaml", "`:merge_yaml[yaml]` merges YAML into the header configuration from this point on."),
  ("temp_merge_yaml", "`:temp_merge_yaml[yaml]` merges YAML into the header configuration for the current message only."),
  ("attach", "`:attach[text]` adds text to the conversation as an attachment."),
  ("env", "`:env[NAME]` inserts the value of an environment variable.")]

def doc? (key : Bytes) : Option Bytes :=
  (docs.find? fun entry => utf8 entry.1 == key).map fun entry => utf8 entry.2

def isBuiltin (key : Bytes) : Bool := (doc? key).isSome

def macroKey : Bytes := utf8 "macro"

/-- Whether a directive switches to another speaker or borrows one. -/
def isSpeaker (key : Bytes) : Bool := key == utf8 "ask" || key == utf8 "aside"

end Colloquy.Builtin
