import Lox.Main
import Lox.Proofs.Chunks.Session
import Lox.Proofs.Control.Restored
import Lox.Proofs.Flags
import Lox.Proofs.ForLoops.Expansion
import Lox.Proofs.Frames.ByName
import Lox.Proofs.Frames.Sheltered
import Lox.Proofs.Grammar.Acceptance
import Lox.Proofs.Lexical.Joined
import Lox.Proofs.Lexical.Located
import Lox.Proofs.Limits.Output
import Lox.Proofs.Number.Written
import Lox.Proofs.Printer.Unambiguous
import Lox.Proofs.Progress.Stops
import Lox.Proofs.Renaming.Unobservable
import Lox.Proofs.Semicolon.Missing
import Lox.Proofs.Sites.Rejected
import Lox.Proofs.Sites.Unique
import Lox.Proofs.Store.Laws
import Lox.Proofs.Viable.First
