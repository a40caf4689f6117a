/-!
# Events

What the library reports while it works. An event has a level and a message, and is written as one
line. State functions report nothing themselves: beside each stands a function that lists the events
of the same action, read off the state before it.
-/

namespace NodeGrid

inductive Level where
  | trace
  | debug
  | info
  | warn
  deriving DecidableEq

def Level.name : Level → String
  | trace => "TRACE"
  | debug => "DEBUG"
  | info => "INFO"
  | warn => "WARN"

structure Event where
  level : Level
  message : String
  deriving DecidableEq

def Event.render (event : Event) : String := event.level.name ++ " " ++ event.message

end NodeGrid
