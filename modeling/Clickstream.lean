import Clickstream.Proofs.Alone
import Clickstream.Proofs.Audiences
import Clickstream.Proofs.Backing
import Clickstream.Proofs.Commits
import Clickstream.Proofs.Delimited
import Clickstream.Proofs.Flaws
import Clickstream.Proofs.Formatting
import Clickstream.Proofs.Loading
import Clickstream.Proofs.Locating
import Clickstream.Proofs.Progress
import Clickstream.Proofs.Published
import Clickstream.Proofs.Retries
import Clickstream.Proofs.Rounding
import Clickstream.Proofs.SevenBits
import Clickstream.Proofs.Sinks
import Clickstream.Proofs.Stepwise
import Clickstream.Proofs.Widths
