import CanDongle.Reception
import CanDongle.Reply
import CanDongle.History
import CanDongle.Gate
import CanDongle.Pipeline.Sequential
import CanDongle.Pipeline.Capacity
import CanDongle.Assembly
import CanDongle.Dialogue
import CanDongle.Dongle.Channel
import CanDongle.Dongle.Response
import CanDongle.Dongle.Bridge
import CanDongle.Dongle.Dialogue
import CanDongle.Dongle.Torn
import CanDongle.Canonical
import CanDongle.Serial
import CanDongle.MainLoop
import CanDongle.BitTiming
import CanDongle.Drift
import CanDongle.LongTimestamp
import CanDongle.Pipeline.Closing
