/-!
# Files

What there is at the place of a file.
-/

namespace NodeGrid

inductive FileState where
  | absent
  /-- There is something that cannot be read as a file. -/
  | unreadable (reason : String)
  /-- The content is not encoded as text. -/
  | notText
  | text (content : String)
  deriving DecidableEq

namespace FileState

def directory : FileState := .unreadable "Is a directory (os error 21)"

/-- The content, or the reason why there is none. -/
def read : FileState → Except String String
  | absent => .error "No such file or directory (os error 2)"
  | unreadable reason => .error reason
  | notText => .error "stream did not contain valid UTF-8"
  | text content => .ok content

end FileState

end NodeGrid
