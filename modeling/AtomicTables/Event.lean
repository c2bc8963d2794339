namespace AtomicTables

inductive Level where
  | trace | debug

def Level.name : Level → String
  | .trace => "TRACE"
  | .debug => "DEBUG"

structure Event where
  level : Level
  message : String
  fields : List (String × String)

end AtomicTables
